namespace Rollup

structure Table (κ α : Type) [Ord κ] where
  toList : List (κ × α)
  ascending : toList.Pairwise fun a b => compare a.1 b.1 = .lt

namespace Table
variable {κ α β : Type} [Ord κ]

/-- Stops at the first key that is not below the one looked for. -/
def find? (k : κ) : List (κ × α) → Option α
  | [] => none
  | (k', v) :: rest =>
    match compare k k' with
    | .lt => none
    | .eq => some v
    | .gt => find? k rest

/-- Puts `f` of the present value under `k`, in order. -/
def place (k : κ) (f : Option α → α) : List (κ × α) → List (κ × α)
  | [] => [(k, f none)]
  | (k', v) :: rest =>
    match compare k k' with
    | .lt => (k, f none) :: (k', v) :: rest
    | .eq => (k', f (some v)) :: rest
    | .gt => (k', v) :: place k f rest

def empty : Table κ α := ⟨[], .nil⟩

def get? (t : Table κ α) (k : κ) : Option α := find? k t.toList

def contains (t : Table κ α) (k : κ) : Bool := (t.get? k).isSome

def keys (t : Table κ α) : List κ := t.toList.map (·.1)

def values (t : Table κ α) : List α := t.toList.map (·.2)

def isEmpty (t : Table κ α) : Bool := t.toList.isEmpty

/-- Replaces every value by one made from its key and itself. -/
def map (f : κ → α → β) (t : Table κ α) : Table κ β :=
  ⟨t.toList.map fun e => (e.1, f e.1 e.2), by
    rw [List.pairwise_map]
    exact t.ascending⟩

theorem mem_place {k : κ} {f : Option α → α} {l : List (κ × α)} {e : κ × α}
    (h : e ∈ place k f l) : e.1 = k ∨ ∃ e' ∈ l, e.1 = e'.1 := by
  induction l with
  | nil =>
    simp only [place, List.mem_singleton] at h
    exact .inl (by rw [h])
  | cons x rest ih =>
    obtain ⟨k', v⟩ := x
    simp only [place] at h
    split at h
    · rcases List.mem_cons.1 h with h | h
      · exact .inl (by rw [h])
      · exact .inr ⟨e, h, rfl⟩
    · rcases List.mem_cons.1 h with h | h
      · exact .inr ⟨(k', v), by simp, by rw [h]⟩
      · exact .inr ⟨e, by simp [h], rfl⟩
    · rcases List.mem_cons.1 h with h | h
      · exact .inr ⟨(k', v), by simp, by rw [h]⟩
      · rcases ih h with h | ⟨e', he', h⟩
        · exact .inl h
        · exact .inr ⟨e', by simp [he'], h⟩

theorem find?_eq_none {k : κ} {l : List (κ × α)} (h : ∀ e ∈ l, compare k e.1 = .lt) :
    find? k l = none := by
  cases l with
  | nil => rfl
  | cons x rest => simp [find?, h x (by simp)]

section Ordered
variable [Std.TransOrd κ]

theorem ascending_place {k : κ} {f : Option α → α} {l : List (κ × α)}
    (h : l.Pairwise fun a b => compare a.1 b.1 = .lt) :
    (place k f l).Pairwise fun a b => compare a.1 b.1 = .lt := by
  induction l with
  | nil => simp [place]
  | cons x rest ih =>
    obtain ⟨k', v⟩ := x
    have below := (List.pairwise_cons.1 h).1
    have later := (List.pairwise_cons.1 h).2
    simp only [place]
    split
    next lt =>
      refine List.pairwise_cons.2 ⟨fun e he => ?_, h⟩
      rcases List.mem_cons.1 he with he | he
      · rw [he]
        exact lt
      · exact Std.TransCmp.lt_trans lt (below e he)
    next => exact List.pairwise_cons.2 ⟨below, later⟩
    next gt =>
      refine List.pairwise_cons.2 ⟨fun e he => ?_, ih later⟩
      rcases mem_place he with he | ⟨e', he', eq⟩
      · rw [he]
        exact Std.OrientedCmp.lt_of_gt gt
      · rw [eq]
        exact below e' he'

def update (t : Table κ α) (k : κ) (f : Option α → α) : Table κ α :=
  ⟨place k f t.toList, ascending_place t.ascending⟩

def insert (t : Table κ α) (k : κ) (v : α) : Table κ α := t.update k fun _ => v

/-- A later pair replaces an earlier one with the same key. -/
def ofList (l : List (κ × α)) : Table κ α := l.foldl (fun t e => t.insert e.1 e.2) empty

theorem find?_place_self {k : κ} {f : Option α → α} {l : List (κ × α)} :
    find? k (place k f l) = some (f (find? k l)) := by
  induction l with
  | nil => simp [place, find?, Std.ReflOrd.compare_self]
  | cons x rest ih =>
    obtain ⟨k', v⟩ := x
    simp only [place]
    split <;> rename_i order <;> simp [find?, order, ih, Std.ReflOrd.compare_self]

theorem find?_place_of_ne [Std.LawfulEqOrd κ] {k k' : κ} {f : Option α → α} {l : List (κ × α)}
    (h : l.Pairwise fun a b => compare a.1 b.1 = .lt) (ne : k' ≠ k) :
    find? k' (place k f l) = find? k' l := by
  have different : compare k' k ≠ .eq := fun eq => ne (Std.LawfulEqOrd.eq_of_compare eq)
  induction l with
  | nil =>
    simp only [place, find?]
    split <;> first | rfl | contradiction
  | cons x rest ih =>
    obtain ⟨c, v⟩ := x
    have later := (List.pairwise_cons.1 h).2
    have below := (List.pairwise_cons.1 h).1
    simp only [place]
    split
    next lt =>
      cases order : compare k' k with
      | lt =>
        have first : compare k' c = .lt := Std.TransCmp.lt_trans order lt
        simp [find?, order, first]
      | eq => contradiction
      | gt => simp [find?, order]
    next same =>
      have apart : compare k' c ≠ .eq := by
        rw [← Std.LawfulEqOrd.eq_of_compare same]
        exact different
      simp only [find?]
      split <;> first | rfl | contradiction
    next =>
      simp only [find?]
      split
      · rfl
      · rfl
      · exact ih later

end Ordered

@[simp] theorem get?_empty (k : κ) : (empty : Table κ α).get? k = none := rfl

@[simp] theorem keys_map (t : Table κ α) (f : κ → α → β) : (t.map f).keys = t.keys := by
  simp [keys, map, Function.comp_def]

section Lawful
variable [Std.TransOrd κ] [Std.LawfulEqOrd κ] [DecidableEq κ]

theorem get?_update (t : Table κ α) (k k' : κ) (f : Option α → α) :
    (t.update k f).get? k' = if k' = k then some (f (t.get? k)) else t.get? k' := by
  split
  next same =>
    subst same
    exact find?_place_self
  next ne => exact find?_place_of_ne t.ascending ne

theorem get?_insert (t : Table κ α) (k k' : κ) (v : α) :
    (t.insert k v).get? k' = if k' = k then some v else t.get? k' :=
  get?_update t k k' _

omit [DecidableEq κ] in
theorem mem_toList_iff (t : Table κ α) (k : κ) (v : α) : (k, v) ∈ t.toList ↔ t.get? k = some v := by
  obtain ⟨l, asc⟩ := t
  show (k, v) ∈ l ↔ find? k l = some v
  induction l with
  | nil => simp [find?]
  | cons x rest ih =>
    obtain ⟨c, w⟩ := x
    have below := (List.pairwise_cons.1 asc).1
    have later := (List.pairwise_cons.1 asc).2
    simp only [find?, List.mem_cons, Prod.mk.injEq, ih later]
    cases order : compare k c with
    | lt =>
      have missing : find? k rest = none :=
        find?_eq_none fun e he => Std.TransCmp.lt_trans order (below e he)
      have ne : k ≠ c := fun eq => by simp [eq, Std.ReflOrd.compare_self] at order
      simp [ne, missing]
    | eq =>
      have same : k = c := Std.LawfulEqOrd.eq_of_compare order
      subst same
      have missing : find? k rest = none := find?_eq_none below
      simp [missing, eq_comm]
    | gt =>
      have ne : k ≠ c := fun eq => by simp [eq, Std.ReflOrd.compare_self] at order
      simp [ne]

end Lawful
end Table
end Rollup
