import Mathlib.Data.List.Dedup
import Rollup.Output.Layout
import Rollup.Proofs.Outcome
import Rollup.Proofs.Table

namespace Rollup

/-- A row in which each placed cell stands at its position, and the rest in their order in the other
positions. -/
structure LaidOut {α : Type} (placed : List (Nat × α)) (rest cells : List α) : Prop where
  length : cells.length = rest.length + placed.length
  positions : ∀ p ∈ placed, cells[p.1]? = some p.2
  others : ((cells.zipIdx.filter fun c => c.2 ∉ placed.map (·.1)).map (·.1)) = rest

section Splice
variable {α : Type}

/-- A cell of a row is what is placed there, before the cells from the next position on. -/
theorem spliceFrom_succ (placed : Table Nat α) (filler : Nat → α) (n i : Nat) (rest : List α) :
    ∃ v rest', spliceFrom placed filler (n + 1) i rest = v :: spliceFrom placed filler n (i + 1) rest' ∧
      ∀ x, placed.get? i = some x → v = x := by
  cases here : placed.get? i with
  | some x =>
    refine ⟨x, rest, ?_, fun _ same => Option.some.inj same⟩
    simp only [spliceFrom, here]
  | none =>
    have absent (v : α) : ∀ x, none = some x → v = x := by
      intro x impossible
      cases impossible
    cases rest with
    | nil =>
      refine ⟨filler i, [], ?_, absent _⟩
      simp only [spliceFrom, here]
    | cons v rest =>
      refine ⟨v, rest, ?_, absent v⟩
      simp only [spliceFrom, here]

/-- A placed cell is where it was placed. -/
theorem getElem?_spliceFrom {placed : Table Nat α} {filler : Nat → α} {p : Nat} {v : α}
    (here : placed.get? p = some v) {n i : Nat} (low : i ≤ p) (high : p < i + n) (rest : List α) :
    (spliceFrom placed filler n i rest)[p - i]? = some v := by
  induction n generalizing i rest with
  | zero => omega
  | succ n ih =>
    obtain ⟨first, rest', parts, placedFirst⟩ := spliceFrom_succ placed filler n i rest
    rw [parts]
    by_cases same : p = i
    · rw [same] at here
      rw [same, Nat.sub_self, placedFirst v here]
      rfl
    · have next : p - i = p - (i + 1) + 1 := by omega
      rw [next, List.getElem?_cons_succ]
      exact ih (by omega) (by omega) rest'

/-- A rest with as many cells as there are free positions fills these in its order. -/
theorem filter_spliceFrom (placed : Table Nat α) (filler : Nat → α) (n i : Nat) (rest : List α)
    (fits : rest.length = (List.range' i n).countP fun j => (placed.get? j).isNone) :
    ((((spliceFrom placed filler n i rest).zipIdx i).filter fun c => (placed.get? c.2).isNone).map
      (·.1)) = rest := by
  induction n generalizing i rest with
  | zero => exact (List.length_eq_zero_iff.1 fits).symm
  | succ n ih =>
    rw [List.range'_succ, List.countP_cons] at fits
    cases here : placed.get? i with
    | some x =>
      have later : rest.length = (List.range' (i + 1) n).countP fun j => (placed.get? j).isNone := by
        simpa [here] using fits
      simp only [spliceFrom, here, List.zipIdx_cons, List.filter_cons, Option.isNone_some,
        Bool.false_eq_true, if_false]
      exact ih (i + 1) rest later
    | none =>
      cases rest with
      | nil =>
        simp [here] at fits
      | cons v rest =>
        have later : rest.length = (List.range' (i + 1) n).countP fun j => (placed.get? j).isNone := by
          simpa [here] using fits
        simp only [spliceFrom, here, List.zipIdx_cons, List.filter_cons, Option.isNone_none, if_true,
          List.map_cons]
        exact congrArg (v :: ·) (ih (i + 1) rest later)

/-- Distinct positions in a range leave free as many as they are fewer. -/
theorem countP_range_not_mem {positions : List Nat} {n : Nat} (distinct : positions.Nodup)
    (within : ∀ p ∈ positions, p < n) :
    (List.range n).countP (· ∉ positions) + positions.length = n := by
  have taken : ((List.range n).filter (· ∈ positions)).Perm positions := by
    refine (List.perm_ext_iff_of_nodup (List.nodup_range.filter _) distinct).2 ?_
    intro p
    rw [List.mem_filter, List.mem_range, decide_eq_true_iff]
    exact ⟨fun h => h.2, fun h => ⟨within p h, h⟩⟩
  have parts := List.length_eq_countP_add_countP (· ∈ positions) (l := List.range n)
  rw [List.length_range, List.countP_eq_length_filter, taken.length_eq] at parts
  have same : (List.range n).countP (· ∉ positions) =
      (List.range n).countP fun a => decide ¬decide (a ∈ positions) = true := by
    simp
  omega

variable {placed : List (Nat × α)} {rest : List α} {table : Table Nat α}

/-- With distinct positions inside the row a splice needs no filler. -/
theorem laidOut_splice (distinct : (placed.map (·.1)).Nodup)
    (within : ∀ p ∈ placed, p.1 < rest.length + placed.length)
    (entered : ∀ i v, table.get? i = some v ↔ (i, v) ∈ placed) (filler : Nat → α) :
    LaidOut placed rest (splice (rest.length + placed.length) table rest filler) where
  length := length_spliceFrom table filler _ 0 rest
  positions p member := by
    have here : table.get? p.1 = some p.2 := (entered p.1 p.2).2 member
    have inside := within p member
    exact getElem?_spliceFrom here (Nat.zero_le p.1) (by omega) rest
  others := by
    have free (i : Nat) : decide (i ∉ placed.map (·.1)) = (table.get? i).isNone := by
      rw [Bool.eq_iff_iff, decide_eq_true_iff, Option.isNone_iff_eq_none, Option.eq_none_iff_forall_ne_some,
        List.mem_map, not_exists]
      constructor
      · intro absent v found
        exact absent (i, v) ⟨(entered i v).1 found, rfl⟩
      · intro empty p h
        obtain ⟨member, rfl⟩ := h
        exact empty p.2 ((entered p.1 p.2).2 member)
    have inside : ∀ i ∈ placed.map (·.1), i < rest.length + placed.length := by
      intro i member
      obtain ⟨p, pMember, rfl⟩ := List.mem_map.1 member
      exact within p pMember
    have count := countP_range_not_mem distinct inside
    rw [List.length_map] at count
    simp only [free] at count ⊢
    refine filter_spliceFrom table filler _ 0 rest ?_
    rw [← List.range_eq_range']
    omega

/-- Without placed cells a row is the rest. -/
theorem laidOut_nil_iff {cells : List α} : LaidOut [] rest cells ↔ cells = rest := by
  have all : ((cells.zipIdx.filter fun c => c.2 ∉ ([] : List (Nat × α)).map (·.1)).map (·.1)) = cells := by
    simp only [List.map_nil, List.not_mem_nil, not_false_eq_true, decide_true, List.filter_true,
      List.zipIdx_map_fst]
  constructor
  · intro laid
    exact all.symm.trans laid.others
  · intro same
    exact ⟨congrArg List.length same, List.forall_mem_nil _, all.trans same⟩

/-- Cells that agree in the taken positions, and in their order in the free ones, are the same. -/
theorem eq_of_filter_zipIdx {taken : List Nat} {l m : List α} (i : Nat) (length : l.length = m.length)
    (within : ∀ j, i + j ∈ taken → l[j]? = m[j]?)
    (free : ((l.zipIdx i).filter fun c => c.2 ∉ taken).map (·.1) =
      ((m.zipIdx i).filter fun c => c.2 ∉ taken).map (·.1)) : l = m := by
  induction l generalizing m i with
  | nil => exact (List.length_eq_zero_iff.1 length.symm).symm
  | cons a l ih =>
    cases m with
    | nil => cases length
    | cons b m =>
      have shorter : l.length = m.length := Nat.succ.inj length
      have later (j : Nat) (here : i + 1 + j ∈ taken) : l[j]? = m[j]? := by
        rw [Nat.add_assoc, Nat.add_comm 1 j] at here
        exact within (j + 1) here
      simp only [List.zipIdx_cons, List.filter_cons] at free
      by_cases here : i ∈ taken
      · have first : a = b := Option.some.inj (within 0 here)
        simp only [here, not_true_eq_false, decide_false, Bool.false_eq_true, if_false] at free
        rw [first, ih (i + 1) shorter later free]
      · simp only [here, not_false_eq_true, decide_true, if_true, List.map_cons, List.cons.injEq] at free
        rw [free.1, ih (i + 1) shorter later free.2]

/-- What is placed, in whatever order it is given, and the rest determine a row. -/
theorem LaidOut.unique {placed' : List (Nat × α)} {cells cells' : List α} (laid : LaidOut placed rest cells)
    (laid' : LaidOut placed' rest cells') (same : placed.Perm placed') : cells = cells' := by
  have positions (i : Nat) : i ∈ placed'.map (·.1) ↔ i ∈ placed.map (·.1) :=
    (same.map (·.1)).mem_iff.symm
  have free := laid.others.trans laid'.others.symm
  simp only [positions] at free
  refine eq_of_filter_zipIdx 0 ?_ ?_ free
  · rw [laid.length, laid'.length, same.length_eq]
  · intro j here
    rw [Nat.zero_add] at here
    obtain ⟨p, member, rfl⟩ := List.mem_map.1 here
    rw [laid.positions p member, laid'.positions p (same.mem_iff.1 member)]

end Splice

/-- No pair of a list is lost in its table exactly when the keys are distinct. -/
theorem Table.nodup_of_length_ofList {κ α : Type} [Ord κ] [Std.TransOrd κ] [Std.LawfulEqOrd κ]
    [DecidableEq κ] {l : List (κ × α)} (kept : (ofList l).toList.length = l.length) :
    (l.map (·.1)).Nodup := by
  have present (k : κ) : k ∈ (ofList l).keys ↔ k ∈ (l.map (·.1)).dedup := by
    rw [mem_keys_iff, ← Option.isSome_iff_exists, ofList, isSome_get?_foldl_insert, List.mem_dedup,
      List.mem_map]
    simp
  have same : (ofList l).keys.Perm (l.map (·.1)).dedup :=
    (List.perm_ext_iff_of_nodup (ofList l).nodup_keys (List.nodup_dedup _)).2 present
  have length : (l.map (·.1)).dedup.length = (l.map (·.1)).length := by
    rw [← same.length_eq, keys, List.length_map, List.length_map, kept]
  rw [← (List.dedup_sublist _).eq_of_length length]
  exact List.nodup_dedup _

namespace Layout
variable {stats : List String} {percentiles : List (Nat × String)}

theorem ofColumns_eq_ok {l : Layout} (h : ofColumns stats percentiles = .ok l) :
    (percentiles.map (·.1)).Nodup ∧ (∀ p ∈ percentiles, p.1 < stats.length + percentiles.length) ∧
      l.names = splice (stats.length + percentiles.length) (Table.ofList percentiles) stats
        fun i => s!"column{i}" := by
  unfold ofColumns at h
  by_cases lost : (Table.ofList percentiles).toList.length ≠ percentiles.length
  · rw [if_pos lost] at h
    cases h
  · rw [if_neg lost] at h
    have distinct := Table.nodup_of_length_ofList (not_not.1 lost)
    cases beyond : (Table.ofList percentiles).keys.find? fun p =>
        decide (stats.length + percentiles.length ≤ p) with
    | some p =>
      simp only [beyond] at h
      cases h
    | none =>
      simp only [beyond] at h
      cases h
      refine ⟨distinct, ?_, rfl⟩
      intro p member
      have key : p.1 ∈ (Table.ofList percentiles).keys :=
        ((Table.ofList percentiles).mem_keys_iff p.1).2
          ⟨p.2, (Table.get?_ofList_eq_some_iff distinct p.1 p.2).2 member⟩
      have low := List.find?_eq_none.1 beyond p.1 key
      simpa using low

/-- The columns of a layout: the percentiles at their positions, the statistics in the others. -/
theorem laidOut_of_ofColumns {l : Layout} (h : ofColumns stats percentiles = .ok l) :
    LaidOut percentiles stats l.names := by
  obtain ⟨distinct, within, names⟩ := ofColumns_eq_ok h
  rw [names]
  exact laidOut_splice distinct within (Table.get?_ofList_eq_some_iff distinct) _

/-- A position outside the row is refused. -/
theorem ofColumns_of_beyond {p : Nat × String} (member : p ∈ percentiles)
    (beyond : stats.length + percentiles.length ≤ p.1) :
    ∃ cause, ofColumns stats percentiles = .error (.invalidSetting cause) := by
  cases outcome : ofColumns stats percentiles with
  | ok l =>
    have within := (ofColumns_eq_ok outcome).2.1 p member
    omega
  | error e =>
    unfold ofColumns at outcome
    by_cases lost : (Table.ofList percentiles).toList.length ≠ percentiles.length
    · rw [if_pos lost] at outcome
      cases outcome
      exact ⟨_, rfl⟩
    · rw [if_neg lost] at outcome
      split at outcome
      · cases outcome
        exact ⟨_, rfl⟩
      · cases outcome

/-- Without percentiles the columns are the statistics. -/
theorem ofColumns_nil (names : List String) : ofColumns names [] = .ok ⟨names⟩ := by
  have laid : ofColumns names [] = .ok ⟨splice (names.length + 0) .empty names fun i => s!"column{i}"⟩ := rfl
  have names_eq := laidOut_nil_iff.1 (laidOut_of_ofColumns laid)
  rw [laid]
  exact congrArg (fun names => Except.ok (Layout.mk names)) names_eq

end Layout
end Rollup
