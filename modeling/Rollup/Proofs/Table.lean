import Mathlib.Data.List.Sort
import Rollup.Table

namespace Rollup.Table
variable {κ α β γ : Type} [Ord κ]

theorem keys_ascending (t : Table κ α) : t.keys.Pairwise fun a b => compare a b = .lt := by
  rw [keys, List.pairwise_map]
  exact t.ascending

/-- A fold of updates that start from a default value. -/
theorem foldl_getD (f : β → γ → β) (start : β) (l : List γ) (v : Option β) :
    l.foldl (fun v c => some (f (v.getD start) c)) v =
      if l = [] then v else some (l.foldl f (v.getD start)) := by
  induction l generalizing v with
  | nil => rfl
  | cons c rest ih =>
    rw [List.foldl_cons, ih, if_neg (List.cons_ne_nil c rest), List.foldl_cons]
    by_cases last : rest = []
    · rw [if_pos last, last]
      rfl
    · rw [if_neg last]
      rfl

section Lawful
variable [Std.TransOrd κ] [Std.LawfulEqOrd κ]

omit [Std.TransOrd κ] in
theorem irrefl_lt (k : κ) : ¬compare k k = .lt := by
  rw [Std.ReflOrd.compare_self]
  exact Ordering.noConfusion

omit [Std.TransOrd κ] in
theorem nodup_of_ascending {l : List κ} (ascending : l.Pairwise fun a b => compare a b = .lt) :
    l.Nodup := by
  refine ascending.imp ?_
  intro a b before same
  rw [same] at before
  exact irrefl_lt b before

omit [Std.TransOrd κ] in
theorem nodup_keys (t : Table κ α) : t.keys.Nodup := nodup_of_ascending t.keys_ascending

theorem mem_keys_iff (t : Table κ α) (k : κ) : k ∈ t.keys ↔ ∃ v, t.get? k = some v := by
  rw [keys, List.mem_map]
  constructor
  · intro h
    obtain ⟨⟨k', v⟩, member, rfl⟩ := h
    exact ⟨v, (t.mem_toList_iff k' v).1 member⟩
  · intro h
    obtain ⟨v, found⟩ := h
    exact ⟨(k, v), (t.mem_toList_iff k v).2 found, rfl⟩

omit [Std.TransOrd κ] [Std.LawfulEqOrd κ] in
theorem contains_of_get? {t : Table κ α} {k : κ} {v : α} (found : t.get? k = some v) :
    t.contains k = true := by
  rw [contains, found]
  rfl

theorem contains_of_mem {t : Table κ α} {e : κ × α} (member : e ∈ t.toList) : t.contains e.1 = true :=
  contains_of_get? ((t.mem_toList_iff e.1 e.2).1 member)

/-- No value of a table with distinct values is under two keys. -/
theorem key_unique {t : Table κ α} (distinct : t.values.Nodup) {k l : κ} {v : α} (here : t.get? k = some v)
    (there : t.get? l = some v) : k = l := by
  have same : (k, v) = (l, v) := List.inj_on_of_nodup_map distinct ((t.mem_toList_iff k v).2 here)
    ((t.mem_toList_iff l v).2 there) rfl
  exact congrArg Prod.fst same

theorem get?_map (t : Table κ α) (f : κ → α → β) (k : κ) :
    (t.map f).get? k = (t.get? k).map (f k) := by
  cases found : t.get? k with
  | some v =>
    have member : (k, v) ∈ t.toList := (t.mem_toList_iff k v).2 found
    exact ((t.map f).mem_toList_iff k (f k v)).1 (List.mem_map.2 ⟨(k, v), member, rfl⟩)
  | none =>
    cases mapped : (t.map f).get? k with
    | none => rfl
    | some w =>
      have present : k ∈ (t.map f).keys := ((t.map f).mem_keys_iff k).2 ⟨w, mapped⟩
      rw [keys_map] at present
      obtain ⟨v, here⟩ := (t.mem_keys_iff k).1 present
      rw [found] at here
      cases here

/-- Tables with the same value under every key have the same entries. -/
theorem toList_eq_of_get? {t u : Table κ α} (h : ∀ k, t.get? k = u.get? k) : t.toList = u.toList := by
  have asymmetric : Std.Antisymm fun a b : κ × α => compare a.1 b.1 = .lt :=
    ⟨fun a b before after => absurd (Std.TransCmp.lt_trans before after) (irrefl_lt a.1)⟩
  have irreflexive : Std.Irrefl fun a b : κ × α => compare a.1 b.1 = .lt := ⟨fun a => irrefl_lt a.1⟩
  refine t.ascending.eq_of_mem_iff u.ascending ?_
  intro h
  obtain ⟨k, v⟩ := h
  rw [mem_toList_iff, mem_toList_iff, h]

theorem eq_of_get? {t u : Table κ α} (h : ∀ k, t.get? k = u.get? k) : t = u := by
  obtain ⟨l, ascending⟩ := t
  obtain ⟨m, ascending'⟩ := u
  have entries : l = m := toList_eq_of_get? h
  subst entries
  rfl

theorem keys_eq_of_isSome {t : Table κ α} {u : Table κ β}
    (h : ∀ k, (t.get? k).isSome = (u.get? k).isSome) : t.keys = u.keys := by
  have same : (t.map fun _ _ => ()).toList = (u.map fun _ _ => ()).toList := by
    apply toList_eq_of_get?
    intro k
    have present := h k
    rw [get?_map, get?_map]
    cases found : t.get? k <;> cases found' : u.get? k <;> simp [found, found'] at present ⊢
  rw [← keys_map t fun _ _ => (), ← keys_map u fun _ _ => (), keys, keys, same]

/-- Going through one table and looking up the other is the same either way. -/
theorem flatMap_toList_comm {t : Table κ α} {u : Table κ β} (f : κ → α → β → List γ) :
    (t.toList.flatMap fun e => ((u.get? e.1).map (f e.1 e.2)).getD []) =
      u.toList.flatMap fun e => ((t.get? e.1).map fun v => f e.1 v e.2).getD [] := by
  have through {δ ε : Type} (l : List δ) (pick : δ → Option ε) (g : ε → List γ) :
      (l.filterMap pick).flatMap g = l.flatMap fun d => ((pick d).map g).getD [] := by
    induction l with
    | nil => rfl
    | cons d rest ih => cases found : pick d <;> simp [found, ih]
  have both : (t.toList.filterMap fun e => (u.get? e.1).map fun w => (e.1, e.2, w)) =
      u.toList.filterMap fun e => (t.get? e.1).map fun v => (e.1, v, e.2) := by
    have asymmetric : Std.Antisymm fun a b : κ × α × β => compare a.1 b.1 = .lt :=
      ⟨fun a b before after => absurd (Std.TransCmp.lt_trans before after) (irrefl_lt a.1)⟩
    have irreflexive : Std.Irrefl fun a b : κ × α × β => compare a.1 b.1 = .lt :=
      ⟨fun a => irrefl_lt a.1⟩
    refine List.Pairwise.eq_of_mem_iff (r := fun a b : κ × α × β => compare a.1 b.1 = .lt) ?_ ?_ ?_
    · rw [List.pairwise_filterMap]
      refine t.ascending.imp ?_
      intro a b before x xHere y yHere
      obtain ⟨w, -, rfl⟩ := Option.map_eq_some_iff.1 xHere
      obtain ⟨w', -, rfl⟩ := Option.map_eq_some_iff.1 yHere
      exact before
    · rw [List.pairwise_filterMap]
      refine u.ascending.imp ?_
      intro a b before x xHere y yHere
      obtain ⟨v, -, rfl⟩ := Option.map_eq_some_iff.1 xHere
      obtain ⟨v', -, rfl⟩ := Option.map_eq_some_iff.1 yHere
      exact before
    · intro x
      obtain ⟨k, v, w⟩ := x
      simp only [List.mem_filterMap, Option.map_eq_some_iff, Prod.exists, Prod.mk.injEq, mem_toList_iff]
      constructor
      · intro h
        obtain ⟨k', v', tFound, w', uFound, rfl, rfl, rfl⟩ := h
        exact ⟨k', w', uFound, v', tFound, rfl, rfl, rfl⟩
      · intro h
        obtain ⟨k', w', uFound, v', tFound, rfl, rfl, rfl⟩ := h
        exact ⟨k', v', tFound, w', uFound, rfl, rfl, rfl⟩
  have forth := through t.toList (fun e => (u.get? e.1).map fun w => (e.1, e.2, w))
    fun x => f x.1 x.2.1 x.2.2
  have back := through u.toList (fun e => (t.get? e.1).map fun v => (e.1, v, e.2))
    fun x => f x.1 x.2.1 x.2.2
  rw [both] at forth
  simp only [Option.map_map, Function.comp_def] at forth back
  exact forth.symm.trans back

variable [DecidableEq κ]

/-- Steps that each update the value under the key of an item, if it has one, leave under a key what
the items of that key make of the value. -/
theorem get?_foldl {step : Table κ α → γ → Table κ α} (key? : γ → Option κ)
    (f : γ → Option α → α)
    (steps : ∀ t c, step t c = match key? c with | none => t | some k => t.update k (f c))
    (l : List γ) (t : Table κ α) (k : κ) :
    (l.foldl step t).get? k =
      (l.filter fun c => key? c = some k).foldl (fun v c => some (f c v)) (t.get? k) := by
  induction l generalizing t with
  | nil => rfl
  | cons c rest ih =>
    rw [List.foldl_cons, ih, steps, List.filter_cons]
    cases key : key? c with
    | none => simp
    | some k' =>
      by_cases same : k' = k
      · subst same
        simp [get?_update]
      · have other : k ≠ k' := fun h => same h.symm
        simp [get?_update, same, other]

/-- Steps that each append a value to the list under a key collect the values of its items. -/
theorem getD_get?_foldl_append {step : Table κ (List α) → γ → Table κ (List α)} (key? : γ → Option κ)
    (value : γ → α)
    (steps : ∀ t c, step t c = match key? c with
      | none => t
      | some k => t.update k fun old => old.getD [] ++ [value c])
    (l : List γ) (k : κ) :
    ((l.foldl step .empty).get? k).getD [] = (l.filter fun c => key? c = some k).map value := by
  have append (items : List γ) (before : List α) :
      items.foldl (fun values c => values ++ [value c]) before = before ++ items.map value := by
    induction items generalizing before with
    | nil => simp
    | cons c rest ih =>
      rw [List.foldl_cons, ih]
      simp
  rw [get?_foldl key? (fun c old => old.getD [] ++ [value c]) steps, get?_empty,
    foldl_getD (fun values c => values ++ [value c]) []]
  by_cases nobody : (l.filter fun c => key? c = some k) = []
  · rw [if_pos nobody, nobody]
    rfl
  · rw [if_neg nobody, append]
    rfl

/-- A key is present after such steps exactly when it was before or some item has it. -/
theorem isSome_get?_foldl {step : Table κ α → γ → Table κ α} (key? : γ → Option κ)
    (f : γ → Option α → α)
    (steps : ∀ t c, step t c = match key? c with | none => t | some k => t.update k (f c))
    (l : List γ) (t : Table κ α) (k : κ) :
    ((l.foldl step t).get? k).isSome ↔ (t.get? k).isSome ∨ ∃ c ∈ l, key? c = some k := by
  induction l generalizing t with
  | nil => simp
  | cons c rest ih =>
    rw [List.foldl_cons, ih, steps]
    cases key : key? c with
    | none => simp [key]
    | some k' =>
      by_cases same : k = k'
      · subst same
        simp [get?_update, key]
      · have other : k' ≠ k := fun h => same h.symm
        simp [get?_update, same, other, key]

/-- A fold of insertions leaves under a key the value that all items with this key have. -/
theorem get?_foldl_insert {key : γ → κ} {value : γ → α} {l : List γ} {k : κ} {v : α}
    (agree : ∀ c ∈ l, key c = k → value c = v) (t : Table κ α)
    (somebody : t.get? k = some v ∨ ∃ c ∈ l, key c = k) :
    (l.foldl (fun t c => t.insert (key c) (value c)) t).get? k = some v := by
  induction l generalizing t with
  | nil =>
    rcases somebody with before | ⟨c, member, -⟩
    · exact before
    · cases member
  | cons c rest ih =>
    apply ih fun c' member => agree c' (List.mem_cons_of_mem c member)
    by_cases here : key c = k
    · left
      rw [get?_insert, if_pos here.symm, agree c List.mem_cons_self here]
    · rcases somebody with before | ⟨c', member, same⟩
      · left
        rw [get?_insert, if_neg fun same => here same.symm, before]
      · right
        rcases List.mem_cons.1 member with first | later
        · exact absurd (first ▸ same) here
        · exact ⟨c', later, same⟩

theorem isSome_get?_foldl_insert (key : γ → κ) (value : γ → α) (l : List γ) (t : Table κ α) (k : κ) :
    ((l.foldl (fun t c => t.insert (key c) (value c)) t).get? k).isSome ↔
      (t.get? k).isSome ∨ ∃ c ∈ l, key c = k := by
  rw [isSome_get?_foldl (fun c => some (key c)) fun c _ => value c]
  · simp only [Option.some.injEq]
  · exact fun _ _ => rfl

/-- Whatever insertions leave under a key was there before or was inserted under it. -/
theorem exists_of_get?_foldl_insert {key : γ → κ} {value : γ → α} {l : List γ} {t : Table κ α} {k : κ}
    {v : α} (found : (l.foldl (fun t c => t.insert (key c) (value c)) t).get? k = some v) :
    t.get? k = some v ∨ ∃ c ∈ l, key c = k ∧ value c = v := by
  induction l generalizing t with
  | nil => exact .inl found
  | cons c rest ih =>
    rcases ih found with before | ⟨c', member, same⟩
    · rw [get?_insert] at before
      by_cases here : k = key c
      · rw [if_pos here] at before
        exact .inr ⟨c, List.mem_cons_self, here.symm, Option.some.inj before⟩
      · rw [if_neg here] at before
        exact .inl before
    · exact .inr ⟨c', List.mem_cons_of_mem c member, same⟩

/-- Insertions that agree on each key leave the inserted pairs. -/
theorem get?_foldl_insert_eq_some_iff {key : γ → κ} {value : γ → α} {l : List γ}
    (agree : ∀ c ∈ l, ∀ c' ∈ l, key c' = key c → value c' = value c) (k : κ) (v : α) :
    (l.foldl (fun t c => t.insert (key c) (value c)) (empty : Table κ α)).get? k = some v ↔
      ∃ c ∈ l, key c = k ∧ value c = v := by
  have entered (c : γ) (member : c ∈ l) :
      (l.foldl (fun t c => t.insert (key c) (value c)) (empty : Table κ α)).get? (key c) =
        some (value c) :=
    get?_foldl_insert (agree c member) empty (.inr ⟨c, member, rfl⟩)
  constructor
  · intro found
    have present := Option.isSome_iff_exists.2 ⟨v, found⟩
    rw [isSome_get?_foldl_insert] at present
    rcases present with start | ⟨c, member, rfl⟩
    · cases start
    · exact ⟨c, member, rfl, Option.some.inj ((entered c member).symm.trans found)⟩
  · intro h
    obtain ⟨c, member, rfl, rfl⟩ := h
    exact entered c member

theorem filter_toList (t : Table κ β) (k : κ) :
    t.toList.filter (·.1 = k) = ((t.get? k).map fun v => (k, v)).toList := by
  have ascending := t.ascending.filter fun e => decide (e.1 = k)
  have keys : ∀ e ∈ t.toList.filter (·.1 = k), e.1 = k := by
    intro e member
    exact of_decide_eq_true (List.mem_filter.1 member).2
  cases found : t.get? k with
  | none =>
    refine List.filter_eq_nil_iff.2 ?_
    intro e member here
    obtain ⟨k', v⟩ := e
    have same : k' = k := of_decide_eq_true here
    rw [← same, (t.mem_toList_iff k' v).1 member] at found
    cases found
  | some v =>
    have member : (k, v) ∈ t.toList.filter (·.1 = k) :=
      List.mem_filter.2 ⟨(t.mem_toList_iff k v).2 found, decide_eq_true rfl⟩
    cases entries : t.toList.filter (·.1 = k) with
    | nil =>
      rw [entries] at member
      cases member
    | cons e rest =>
      rw [entries] at member keys ascending
      cases rest with
      | nil =>
        rw [← List.mem_singleton.1 member]
        rfl
      | cons e' others =>
        have before := (List.pairwise_cons.1 ascending).1 e' List.mem_cons_self
        rw [keys e List.mem_cons_self, keys e' (List.mem_cons_of_mem e List.mem_cons_self)] at before
        exact absurd before (irrefl_lt k)

/-- Updating one table by the entries of another changes each value by the entry under its key. -/
theorem get?_foldl_toList (t : Table κ β) (f : κ × β → Option α → α) (u : Table κ α) (k : κ) :
    (t.toList.foldl (fun u e => u.update e.1 (f e)) u).get? k =
      match t.get? k with
      | none => u.get? k
      | some v => some (f (k, v) (u.get? k)) := by
  rw [get?_foldl (fun e : κ × β => some e.1) f fun _ _ => rfl]
  simp only [Option.some.injEq]
  rw [filter_toList]
  cases t.get? k with
  | none => rfl
  | some v => rfl

/-- The pairs of a list with distinct keys are the entries of its table. -/
theorem get?_ofList_eq_some_iff {l : List (κ × α)} (distinct : (l.map (·.1)).Nodup) (k : κ) (v : α) :
    (ofList l).get? k = some v ↔ (k, v) ∈ l := by
  have agree : ∀ e ∈ l, ∀ e' ∈ l, e'.1 = e.1 → e'.2 = e.2 := by
    intro e member e' member' same
    rw [List.inj_on_of_nodup_map distinct member' member same]
  rw [ofList, get?_foldl_insert_eq_some_iff agree]
  constructor
  · intro h
    obtain ⟨e, member, rfl, rfl⟩ := h
    exact member
  · intro member
    exact ⟨(k, v), member, rfl, rfl⟩

theorem toList_ofList {l : List (κ × α)} (ascending : l.Pairwise fun a b => compare a.1 b.1 = .lt) :
    (ofList l).toList = l := by
  have distinct : (l.map (·.1)).Nodup := nodup_keys ⟨l, ascending⟩
  refine @toList_eq_of_get? κ α _ _ _ (ofList l) ⟨l, ascending⟩ fun k => Option.ext fun v => ?_
  rw [get?_ofList_eq_some_iff distinct, ← mem_toList_iff]

end Lawful
end Rollup.Table
