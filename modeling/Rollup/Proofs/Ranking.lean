import Mathlib.Data.List.Induction
import Rollup.Ranking

namespace Rollup
variable {α β : Type} {le : α → α → Bool}

theorem stableSort_concat (le : α → α → Bool) (l : List α) (x : α) :
    stableSort le (l ++ [x]) = insertLast le x (stableSort le l) := by
  rw [stableSort, List.foldl_append]
  rfl

theorem insertLast_map (le : β → β → Bool) (f : α → β) (x : α) (l : List α) :
    insertLast le (f x) (l.map f) = (insertLast (fun a b => le (f a) (f b)) x l).map f := by
  induction l with
  | nil => rfl
  | cons y rest ih =>
    simp only [List.map_cons, insertLast]
    by_cases before : le (f y) (f x) = true
    · simp only [if_pos before, List.map_cons, ih]
    · simp only [if_neg before, List.map_cons]

/-- Sorting the images is sorting by the images. -/
theorem stableSort_map (le : β → β → Bool) (f : α → β) (l : List α) :
    stableSort le (l.map f) = (stableSort (fun a b => le (f a) (f b)) l).map f := by
  induction l using List.reverseRecOn with
  | nil => rfl
  | append_singleton rest x ih =>
    rw [List.map_append, List.map_singleton, stableSort_concat, stableSort_concat, ih, insertLast_map]

theorem insertLast_congr {le' : α → α → Bool} {x : α} {l : List α} (same : ∀ y ∈ l, le y x = le' y x) :
    insertLast le x l = insertLast le' x l := by
  induction l with
  | nil => rfl
  | cons y rest ih =>
    have here : le y x = le' y x := same y List.mem_cons_self
    have later := ih fun z member => same z (List.mem_cons_of_mem y member)
    simp only [insertLast, here, later]

theorem stableSort_congr {le' : α → α → Bool} {l : List α}
    (same : ∀ a ∈ l, ∀ b ∈ l, le a b = le' a b) : stableSort le l = stableSort le' l := by
  induction l using List.reverseRecOn with
  | nil => rfl
  | append_singleton rest x ih =>
    have earlier : stableSort le rest = stableSort le' rest := by
      apply ih
      intro a aMember b bMember
      exact same a (List.mem_append_left _ aMember) b (List.mem_append_left _ bMember)
    rw [stableSort_concat, stableSort_concat, earlier]
    apply insertLast_congr
    intro y member
    have present : y ∈ rest := (stableSort_perm le' rest).mem_iff.1 member
    exact same y (List.mem_append_left _ present) x (List.mem_append_right _ List.mem_cons_self)

/-- Behind elements that come no later than it, an element is inserted into the rest. -/
theorem insertLast_append {x : α} {front : List α} (before : ∀ a ∈ front, le a x = true) (l : List α) :
    insertLast le x (front ++ l) = front ++ insertLast le x l := by
  induction front with
  | nil => rfl
  | cons a rest ih =>
    have here : le a x = true := before a List.mem_cons_self
    have later := ih fun b member => before b (List.mem_cons_of_mem a member)
    simp only [List.cons_append, insertLast, if_pos here, later]

/-- An element that comes before the last one is inserted in front of it. -/
theorem insertLast_concat_of_lt {x last : α} (after : le last x = false) (front : List α) :
    insertLast le x (front ++ [last]) = insertLast le x front ++ [last] := by
  induction front with
  | nil => simp [insertLast, after]
  | cons a rest ih =>
    simp only [List.cons_append, insertLast, ih]
    split <;> rfl

/-- In front of an element that comes later, an element is inserted into what is before. -/
theorem exists_insertLast_eq (le : α → α → Bool) (x : α) (l : List α) :
    ∃ front back, l = front ++ back ∧ insertLast le x l = front ++ x :: back ∧
      (∀ a ∈ front, le a x = true) ∧ ∀ b rest, back = b :: rest → le b x = false := by
  induction l with
  | nil =>
    refine ⟨[], [], rfl, rfl, ?_, ?_⟩
    · intro a member
      cases member
    · intro b rest same
      cases same
  | cons y rest ih =>
    by_cases here : le y x = true
    · obtain ⟨front, back, parts, inserted, before, after⟩ := ih
      refine ⟨y :: front, back, ?_, ?_, ?_, after⟩
      · rw [parts, List.cons_append]
      · simp only [insertLast, if_pos here, inserted, List.cons_append]
      · intro a member
        rcases List.mem_cons.1 member with first | later
        · rw [first]
          exact here
        · exact before a later
    · refine ⟨[], y :: rest, rfl, ?_, ?_, ?_⟩
      · simp only [insertLast, if_neg here, List.nil_append]
      · intro a member
        cases member
      · intro b others same
        cases same
        exact Bool.eq_false_iff.2 here

section Orders
variable (trans : ∀ a b c, le a b → le b c → le a c) (total : ∀ a b, (le a b || le b a) = true)

include total in
theorem le_of_not_le {a b : α} (after : le b a = false) : le a b = true := by
  have either := total a b
  rw [after, Bool.or_false] at either
  exact either

include trans in
/-- A sorted list that must not grow loses its last element to one that comes before it, and stays as it is
otherwise. -/
theorem take_insertLast_concat (x : α) {front : List α} {last : α}
    (sorted : (front ++ [last]).Pairwise fun a b => le a b) :
    (insertLast le x (front ++ [last])).take (front.length + 1) =
      if le last x then front ++ [last] else insertLast le x front := by
  cases after : le last x with
  | true =>
    have behind : ∀ a ∈ front ++ [last], le a x = true := by
      rw [List.pairwise_append] at sorted
      rw [List.forall_mem_append, List.forall_mem_singleton]
      refine ⟨fun a member => ?_, after⟩
      exact trans a last x (sorted.2.2 a member last List.mem_cons_self) after
    have inserted : insertLast le x (front ++ [last]) = (front ++ [last]) ++ [x] := by
      simpa [insertLast] using insertLast_append behind []
    have length : (front ++ [last]).length = front.length + 1 := List.length_append
    rw [inserted, List.take_left' length, if_pos rfl]
  | false =>
    have length : (insertLast le x front).length = front.length + 1 := (insertLast_perm le x front).length_eq
    rw [insertLast_concat_of_lt after, List.take_left' length]
    rfl

include trans in
/-- Where an element goes in a sorted list: all before it come no later, and all behind it later. -/
theorem exists_insertLast_sorted (x : α) {l : List α} (sorted : l.Pairwise fun a b => le a b) :
    ∃ front back, l = front ++ back ∧ insertLast le x l = front ++ x :: back ∧
      (∀ a ∈ front, le a x = true) ∧ ∀ b ∈ back, le b x = false := by
  obtain ⟨front, back, parts, inserted, before, after⟩ := exists_insertLast_eq le x l
  refine ⟨front, back, parts, inserted, before, ?_⟩
  cases back with
  | nil =>
    intro b member
    cases member
  | cons c rest =>
    have first : le c x = false := after c rest rfl
    intro b member
    rcases List.mem_cons.1 member with same | later
    · rw [same]
      exact first
    · rw [parts, List.pairwise_append, List.pairwise_cons] at sorted
      have next : le c b = true := sorted.2.1.1 b later
      rw [Bool.eq_false_iff]
      intro back
      rw [trans c b x next back] at first
      cases first

/-- Elements that do not come later than each other keep the order they had. -/
theorem pairwise_stableSort_of_pairwise (trans : ∀ a b c, le a b → le b c → le a c)
    (total : ∀ a b, (le a b || le b a) = true) {r : α → α → Prop} {l : List α} (ordered : l.Pairwise r) :
    (stableSort le l).Pairwise fun a b => le a b ∧ (le b a → r a b) := by
  induction l using List.reverseRecOn with
  | nil => exact .nil
  | append_singleton rest x ih =>
    rw [List.pairwise_append] at ordered
    have sorted := pairwise_stableSort trans total rest
    obtain ⟨front, back, parts, inserted, before, after⟩ := exists_insertLast_sorted trans x sorted
    have stable := ih ordered.1
    have known : ∀ a ∈ front, r a x := by
      intro a member
      have present : a ∈ stableSort le rest := parts ▸ List.mem_append_left back member
      exact ordered.2.2 a ((stableSort_perm le rest).mem_iff.1 present) x List.mem_cons_self
    rw [parts, List.pairwise_append] at stable
    rw [stableSort_concat, inserted, List.pairwise_append, List.pairwise_cons]
    refine ⟨stable.1, ⟨?_, stable.2.1⟩, ?_⟩
    · intro b member
      have later := after b member
      refine ⟨le_of_not_le total later, ?_⟩
      intro tie
      rw [later] at tie
      cases tie
    · intro a aMember b bMember
      rcases List.mem_cons.1 bMember with same | inBack
      · rw [same]
        exact ⟨before a aMember, fun _ => known a aMember⟩
      · exact stable.2.2 a aMember b inBack

include trans in
/-- Of two elements one of which comes later, either can be inserted first. -/
theorem insertLast_comm {x y : α} (before : le x y = true) (strict : le y x = false) (l : List α) :
    insertLast le y (insertLast le x l) = insertLast le x (insertLast le y l) := by
  induction l with
  | nil => simp [insertLast, before, strict]
  | cons z rest ih =>
    by_cases zx : le z x = true
    · have zy : le z y = true := trans z x y zx before
      simp only [insertLast, if_pos zx, if_pos zy, ih]
    · by_cases zy : le z y = true
      · simp [insertLast, zx, zy, before]
      · simp [insertLast, zx, zy, before, strict]

include trans in
theorem foldl_insertLast_comm {x : α} {back : List α}
    (after : ∀ b ∈ back, le x b = true ∧ le b x = false) (l : List α) :
    back.foldl (fun sorted b => insertLast le b sorted) (insertLast le x l) =
      insertLast le x (back.foldl (fun sorted b => insertLast le b sorted) l) := by
  induction back generalizing l with
  | nil => rfl
  | cons b rest ih =>
    obtain ⟨before, strict⟩ := after b List.mem_cons_self
    have later := ih fun c member => after c (List.mem_cons_of_mem b member)
    rw [List.foldl_cons, List.foldl_cons, insertLast_comm trans before strict, later]

include trans total in
/-- An element finds the same place in a sorted list whether or not another one is in it, which still has only
elements in front that come strictly before it. -/
theorem exists_insertLast_around (x : α) {a : α} {front back : List α}
    (sorted : (front ++ a :: back).Pairwise fun a b => le a b) (before : ∀ b ∈ front, le a b = false) :
    ∃ front' back', insertLast le x (front ++ a :: back) = front' ++ a :: back' ∧
      insertLast le x (front ++ back) = front' ++ back' ∧ ∀ b ∈ front', le a b = false := by
  induction front with
  | nil =>
    by_cases later : le a x = true
    · refine ⟨[], insertLast le x back, ?_, rfl, by simp⟩
      simp [insertLast, later]
    · refine ⟨[x], back, ?_, ?_, by simpa using later⟩
      · simp [insertLast, later]
      · cases back with
        | nil => rfl
        | cons c rest =>
          have next : le a c = true := (List.pairwise_cons.1 sorted).1 c List.mem_cons_self
          have notYet : ¬le c x = true := fun h => later (trans a c x next h)
          simp [insertLast, notYet]
  | cons y rest ih =>
    obtain ⟨-, others⟩ := List.pairwise_cons.1 sorted
    by_cases past : le y x = true
    · obtain ⟨front', back', here, there, ahead⟩ :=
        ih others fun b member => before b (List.mem_cons_of_mem y member)
      refine ⟨y :: front', back', ?_, ?_, ?_⟩
      · simp [insertLast, past, here]
      · simp [insertLast, past, there]
      · exact List.forall_mem_cons.2 ⟨before y List.mem_cons_self, ahead⟩
    · have xy : le x y = true := le_of_not_le total (Bool.eq_false_iff.2 past)
      have first : le a x = false := by
        rw [Bool.eq_false_iff]
        intro ax
        have ay := trans a x y ax xy
        rw [before y List.mem_cons_self] at ay
        cases ay
      refine ⟨x :: y :: rest, back, ?_, ?_, List.forall_mem_cons.2 ⟨first, before⟩⟩
      · simp [insertLast, past]
      · simp [insertLast, past]

include trans total in
/-- The sort of a list with one element more in front has it behind all that come before it and no other. -/
theorem exists_stableSort_cons (a : α) (l : List α) :
    ∃ front back, stableSort le (a :: l) = front ++ a :: back ∧ stableSort le l = front ++ back ∧
      ∀ b ∈ front, le a b = false := by
  have general (front back : List α) (sorted : (front ++ a :: back).Pairwise fun a b => le a b)
      (before : ∀ b ∈ front, le a b = false) :
      ∃ front' back', l.foldl (fun sorted x => insertLast le x sorted) (front ++ a :: back) =
          front' ++ a :: back' ∧
        l.foldl (fun sorted x => insertLast le x sorted) (front ++ back) = front' ++ back' ∧
          ∀ b ∈ front', le a b = false := by
    induction l generalizing front back with
    | nil => exact ⟨front, back, rfl, rfl, before⟩
    | cons x rest ih =>
      obtain ⟨front', back', here, there, ahead⟩ := exists_insertLast_around trans total x sorted before
      have kept := pairwise_insertLast trans total x sorted
      rw [List.foldl_cons, List.foldl_cons, here, there]
      exact ih front' back' (here ▸ kept) ahead
  exact general [] [] (List.pairwise_singleton _ a) (by simp)

include trans total in
/-- Sorting by insertion is the stable sort by merging. -/
theorem stableSort_eq_mergeSort (l : List α) : stableSort le l = l.mergeSort le := by
  induction l with
  | nil => simp [stableSort]
  | cons a rest ih =>
    have sorted := pairwise_stableSort trans total (a :: rest)
    have merged := List.pairwise_mergeSort trans total (a :: rest)
    obtain ⟨front, back, here, there, ahead⟩ := exists_stableSort_cons trans total a rest
    obtain ⟨front', back', here', there', ahead'⟩ := List.mergeSort_cons trans total a rest
    -- Both parts in front are the elements of the sorted rest that come before the new one.
    have split {front back : List α} (ahead : ∀ b ∈ front, le a b = false)
        (behind : (front ++ a :: back).Pairwise fun a b => le a b) :
        (front ++ back).takeWhile (!le a ·) = front := by
      have after : back.takeWhile (!le a ·) = [] := by
        cases back with
        | nil => rfl
        | cons c others =>
          rw [List.pairwise_append, List.pairwise_cons] at behind
          simp [behind.2.1.1 c List.mem_cons_self]
      rw [List.takeWhile_append_of_pos (by simpa using ahead), after, List.append_nil]
    have parts : front ++ back = front' ++ back' := by rw [← there, ih, there']
    have fronts : front = front' := by
      rw [← split ahead (here ▸ sorted), parts, split (by simpa using ahead') (here' ▸ merged)]
    subst fronts
    rw [here, here', List.append_cancel_left parts]

end Orders

theorem stableSort_append_of_pairwise {front : List α} (sorted : front.Pairwise fun a b => le a b)
    {back : List α} (below : ∀ a ∈ front, ∀ b ∈ back, le a b = true) :
    stableSort le (front ++ back) = front ++ stableSort le back := by
  induction back using List.reverseRecOn with
  | nil =>
    rw [List.append_nil]
    show stableSort le front = front ++ []
    rw [List.append_nil]
    induction front using List.reverseRecOn with
    | nil => rfl
    | append_singleton rest x ih =>
      rw [List.pairwise_append] at sorted
      have before : ∀ a ∈ rest, le a x = true := fun a member =>
        sorted.2.2 a member x List.mem_cons_self
      have last := insertLast_append before []
      rw [List.append_nil] at last
      rw [stableSort_concat, ih sorted.1 fun a _ b member => absurd member List.not_mem_nil, last]
      rfl
  | append_singleton rest x ih =>
    have earlier : ∀ a ∈ front, ∀ b ∈ rest, le a b = true := fun a aMember b bMember =>
      below a aMember b (List.mem_append_left _ bMember)
    have before : ∀ a ∈ front, le a x = true := fun a member =>
      below a member x (List.mem_append_right _ List.mem_cons_self)
    rw [← List.append_assoc, stableSort_concat, ih earlier, insertLast_append before, stableSort_concat]

section Refinement
variable {fine coarse : α → α → Bool} (refines : ∀ a b, fine a b → coarse a b)
  (fineTrans : ∀ a b c, fine a b → fine b c → fine a c)
  (fineTotal : ∀ a b, (fine a b || fine b a) = true)
  (coarseTrans : ∀ a b c, coarse a b → coarse b c → coarse a c)
  (coarseTotal : ∀ a b, (coarse a b || coarse b a) = true)

include refines fineTrans fineTotal coarseTrans coarseTotal in
/-- What a finer order is to sort may have been sorted by the coarser one before. -/
theorem stableSort_stableSort (l : List α) :
    stableSort fine (stableSort coarse l) = stableSort fine l := by
  induction l using List.reverseRecOn with
  | nil => rfl
  | append_singleton rest x ih =>
    have sorted := pairwise_stableSort coarseTrans coarseTotal rest
    obtain ⟨front, back, parts, inserted, -, after⟩ :=
      exists_insertLast_sorted coarseTrans x sorted
    have later : ∀ b ∈ back, fine x b = true ∧ fine b x = false := by
      intro b member
      have notBefore : fine b x = false := by
        rw [Bool.eq_false_iff]
        intro before
        have stays := after b member
        rw [refines b x before] at stays
        cases stays
      exact ⟨le_of_not_le fineTotal notBefore, notBefore⟩
    have whole : stableSort fine (front ++ back) = stableSort fine rest := parts ▸ ih
    rw [stableSort_concat, stableSort_concat, inserted, ← whole]
    rw [stableSort, stableSort, List.foldl_append, List.foldl_append, List.foldl_cons]
    exact foldl_insertLast_comm fineTrans later _

include fineTrans fineTotal in
/-- Sorting leaves the front of a list alone exactly when the front is sorted and nothing behind it comes
before any of it. -/
theorem take_stableSort_eq_take_iff (k : Nat) (s : List α) :
    (stableSort fine s).take k = s.take k ↔
      ((s.take k).Pairwise fun a b => fine a b) ∧ ∀ a ∈ s.take k, ∀ b ∈ s.drop k, fine a b := by
  constructor
  · intro kept
    have sorted := pairwise_stableSort fineTrans fineTotal s
    have perm := stableSort_perm fine s
    rw [← List.take_append_drop k (stableSort fine s), kept] at sorted perm
    have rest : ((stableSort fine s).drop k).Perm (s.drop k) := by
      have parts : (s.take k ++ (stableSort fine s).drop k).Perm (s.take k ++ s.drop k) := by
        rw [List.take_append_drop k s]
        exact perm
      exact (List.perm_append_left_iff _).1 parts
    rw [List.pairwise_append] at sorted
    refine ⟨sorted.1, ?_⟩
    intro a aMember b bMember
    exact sorted.2.2 a aMember b (rest.mem_iff.2 bMember)
  · intro agree
    obtain ⟨sorted, below⟩ := agree
    have parts := stableSort_append_of_pairwise sorted below
    rw [List.take_append_drop] at parts
    rw [parts, List.take_append]
    by_cases long : k ≤ s.length
    · have length : (s.take k).length = k := List.length_take_of_le long
      rw [length, Nat.sub_self, List.take_zero, List.append_nil, List.take_take, Nat.min_self]
    · have nothing : s.drop k = [] := List.drop_eq_nil_of_le (Nat.le_of_not_le long)
      have sortedNothing : stableSort fine [] = [] := rfl
      rw [nothing, sortedNothing, List.take_take, Nat.min_self, List.take_nil, List.append_nil]

include refines fineTrans fineTotal coarseTrans coarseTotal in
/-- The first few by two orders are the same exactly when none of them ties with a later element that
the finer order puts before it. -/
theorem take_stableSort_eq_iff {r : α → α → Prop} (asymm : ∀ a b, r a b → ¬r b a) (k : Nat) {l : List α}
    (ordered : l.Pairwise r) :
    (stableSort fine l).take k = (stableSort coarse l).take k ↔
      ∀ a ∈ (stableSort coarse l).take k, ∀ b ∈ l, r a b → coarse a b → coarse b a → fine a b := by
  have stable := pairwise_stableSort_of_pairwise coarseTrans coarseTotal ordered
  have perm := stableSort_perm coarse l
  have reflexive (a : α) : fine a a = true := by
    have either := fineTotal a a
    rwa [Bool.or_self] at either
  rw [← stableSort_stableSort refines fineTrans fineTotal coarseTrans coarseTotal,
    take_stableSort_eq_take_iff fineTrans fineTotal]
  have within (sorted : ((stableSort coarse l).take k).Pairwise fun a b => fine a b) :
      ∀ ⦃a⦄, a ∈ (stableSort coarse l).take k → ∀ ⦃b⦄, b ∈ (stableSort coarse l).take k →
        r a b → coarse a b → coarse b a → fine a b := by
    have kept := stable.sublist (List.take_sublist k (stableSort coarse l))
    apply List.Pairwise.forall_of_forall_of_flip
    · intro c _ _ _ _
      exact reflexive c
    · refine sorted.imp ?_
      intro a b before _ _ _
      exact before
    · refine kept.imp ?_
      intro a b h later tie _
      exact absurd (h.2 tie) (asymm b a later)
  constructor
  · intro agree a aMember b bMember later forth back
    obtain ⟨sorted, below⟩ := agree
    rcases List.mem_append.1 ((List.take_append_drop k (stableSort coarse l)).symm ▸
        perm.mem_iff.2 bMember) with kept | cut
    · exact within sorted aMember kept later forth back
    · exact below a aMember b cut
  · intro agree
    have step {a b : α} (aKept : a ∈ (stableSort coarse l).take k) (bMember : b ∈ stableSort coarse l)
        (h : coarse a b ∧ (coarse b a → r a b)) : fine a b = true := by
      by_cases back : coarse b a = true
      · exact agree a aKept b (perm.mem_iff.1 bMember) (h.2 back) h.1 back
      · apply le_of_not_le fineTotal
        rw [Bool.eq_false_iff]
        exact mt (refines b a) back
    constructor
    · refine (stable.sublist (List.take_sublist k _)).imp_of_mem ?_
      intro a b aKept bKept h
      exact step aKept (List.mem_of_mem_take bKept) h
    · intro a aKept b bCut
      have parts := stable
      rw [← List.take_append_drop k (stableSort coarse l), List.pairwise_append] at parts
      exact step aKept (List.mem_of_mem_drop bCut) (parts.2.2 a aKept b bCut)

end Refinement
end Rollup
