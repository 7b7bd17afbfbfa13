namespace Rollup
variable {α : Type}

/-- Puts an element behind all that come no later, before the first that comes later. -/
def insertLast (le : α → α → Bool) (x : α) : List α → List α
  | [] => [x]
  | y :: rest => if le y x then y :: insertLast le x rest else x :: y :: rest

/-- Elements that come no later than each other stay in the order they had. -/
def stableSort (le : α → α → Bool) (l : List α) : List α :=
  l.foldl (fun sorted x => insertLast le x sorted) []

theorem take_insertLast (le : α → α → Bool) (x : α) (k : Nat) (l : List α) :
    (insertLast le x (l.take k)).take k = (insertLast le x l).take k := by
  induction l generalizing k with
  | nil => simp
  | cons y rest ih =>
    cases k with
    | zero => simp
    | succ k =>
      simp only [List.take_succ_cons, insertLast]
      split
      · simp [ih k]
      · cases k <;> simp [List.take_take]

theorem insertLast_perm (le : α → α → Bool) (x : α) (l : List α) :
    (insertLast le x l).Perm (x :: l) := by
  induction l with
  | nil => exact .refl _
  | cons y rest ih =>
    simp only [insertLast]
    split
    · exact (ih.cons y).trans (.swap x y rest)
    · exact .refl _

theorem pairwise_insertLast {le : α → α → Bool} (trans : ∀ a b c, le a b → le b c → le a c)
    (total : ∀ a b, (le a b || le b a) = true) (x : α) {l : List α}
    (h : l.Pairwise fun a b => le a b) : (insertLast le x l).Pairwise fun a b => le a b := by
  induction l with
  | nil => simp [insertLast]
  | cons y rest ih =>
    have first := (List.pairwise_cons.1 h).1
    have later := (List.pairwise_cons.1 h).2
    simp only [insertLast]
    split
    next before =>
      refine List.pairwise_cons.2 ⟨fun z hz => ?_, ih later⟩
      rcases List.mem_cons.1 ((insertLast_perm le x rest).mem_iff.1 hz) with same | inRest
      · rw [same]
        exact before
      · exact first z inRest
    next after =>
      have xy : le x y := by
        have either := total x y
        simp_all
      refine List.pairwise_cons.2 ⟨fun z hz => ?_, h⟩
      rcases List.mem_cons.1 hz with same | inRest
      · rw [same]
        exact xy
      · exact trans x y z xy (first z inRest)

theorem foldl_insertLast_perm (le : α → α → Bool) (l sorted : List α) :
    (l.foldl (fun sorted x => insertLast le x sorted) sorted).Perm (l ++ sorted) := by
  induction l generalizing sorted with
  | nil => exact .refl _
  | cons x rest ih =>
    have step := (insertLast_perm le x sorted).append_left rest
    exact (ih _).trans (step.trans List.perm_middle)

theorem stableSort_perm (le : α → α → Bool) (l : List α) : (stableSort le l).Perm l := by
  have h := foldl_insertLast_perm le l []
  rwa [List.append_nil] at h

theorem pairwise_stableSort {le : α → α → Bool} (trans : ∀ a b c, le a b → le b c → le a c)
    (total : ∀ a b, (le a b || le b a) = true) (l : List α) :
    (stableSort le l).Pairwise fun a b => le a b := by
  have general (l sorted : List α) (h : sorted.Pairwise fun a b => le a b) :
      (l.foldl (fun sorted x => insertLast le x sorted) sorted).Pairwise fun a b => le a b := by
    induction l generalizing sorted with
    | nil => exact h
    | cons x rest ih => exact ih _ (pairwise_insertLast trans total x h)
  exact general l [] .nil

end Rollup
