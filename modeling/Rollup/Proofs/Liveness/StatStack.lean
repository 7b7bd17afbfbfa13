import Mathlib.Algebra.GroupWithZero.Nat
import Rollup.Proofs.Stat.Evaluation

namespace Rollup

/-- The slots of a handle, the lowest first. -/
def StatRef.slots : StatRef → List SlotRef
  | single slot => [slot]
  | aggregate _ left right => [left, right]

theorem StatRef.slots_ne_nil (ref : StatRef) : ref.slots ≠ [] := by
  cases ref with
  | single slot => exact List.cons_ne_nil slot []
  | aggregate op left right => exact List.cons_ne_nil left [right]

namespace StatStack

theorem isValid_iff (s : StatStack) (ref : StatRef) :
    s.isValid ref = true ↔ ∀ slot ∈ ref.slots, s.slotIsLive slot = true := by
  cases ref with
  | single slot => rw [isValid, StatRef.slots, List.forall_mem_singleton]
  | aggregate op left right =>
    rw [isValid, Bool.and_eq_true, StatRef.slots, List.forall_mem_cons, List.forall_mem_singleton]

theorem slotIsLive_iff (s : StatStack) (slot : SlotRef) :
    s.slotIsLive slot = true ↔ slot.stack = s.id ∧ s.slots[slot.depth]? = some slot.generation := by
  rw [slotIsLive, Bool.and_eq_true, beq_iff_eq, beq_iff_eq]

section Push
variable (s : StatStack) (shape : Shape)

@[simp] theorem id_push : (s.push shape).2.id = s.id := by
  cases shape with
  | single => rfl
  | combined op => rfl

@[simp] theorem widths_push : (s.push shape).2.widths = shape.width :: s.widths := by
  cases shape with
  | single => rfl
  | combined op => rfl

@[simp] theorem nextGeneration_push :
    (s.push shape).2.nextGeneration = s.nextGeneration + shape.width := by
  cases shape with
  | single => rfl
  | combined op => rfl

/-- The slots of a new handle follow those that are occupied, and so do their numbers. -/
theorem slots_ref_push : (s.push shape).1.slots =
    (List.range shape.width).map fun i => ⟨s.id, s.depth + i, s.nextGeneration + i⟩ := by
  cases shape with
  | single => rfl
  | combined op =>
    have second : ({ s with widths := 2 :: s.widths } : StatStack).occupy.depth = s.depth + 1 :=
      depth_occupy _
    show [nextSlot _, nextSlot _] = _
    rw [nextSlot, nextSlot, Shape.width, second]
    rfl

theorem length_slots_ref_push : (s.push shape).1.slots.length = shape.width := by
  rw [slots_ref_push, List.length_map, List.length_range]

theorem slots_push : (s.push shape).2.slots =
    s.slots ++ (s.push shape).1.slots.map (·.generation) := by
  cases shape with
  | single => rfl
  | combined op => exact List.append_assoc s.slots [s.nextGeneration] [s.nextGeneration + 1]

theorem mem_slots_ref_push_iff (slot : SlotRef) : slot ∈ (s.push shape).1.slots ↔
    slot.stack = s.id ∧ ∃ i < shape.width,
      slot.depth = s.depth + i ∧ slot.generation = s.nextGeneration + i := by
  rw [slots_ref_push, List.mem_map]
  constructor
  · intro h
    obtain ⟨i, within, rfl⟩ := h
    exact ⟨rfl, i, List.mem_range.1 within, rfl, rfl⟩
  · intro h
    obtain ⟨owner, i, within, depth, generation⟩ := h
    refine ⟨i, List.mem_range.2 within, ?_⟩
    rw [← owner, ← depth, ← generation]

/-- The slot at a place of a new handle lies this far above the others. -/
theorem depth_of_getElem?_slots {s : StatStack} {shape : Shape} {i : Nat} {slot : SlotRef}
    (here : (s.push shape).1.slots[i]? = some slot) : slot.depth = s.depth + i := by
  rw [s.slots_ref_push, List.getElem?_map, Option.map_eq_some_iff] at here
  obtain ⟨j, place, rfl⟩ := here
  obtain ⟨within, same⟩ := List.getElem?_eq_some_iff.1 place
  rw [List.getElem_range] at same
  rw [same]

/-- A push makes its own slots live and leaves the others as they were. -/
theorem slotIsLive_push_iff (slot : SlotRef) : (s.push shape).2.slotIsLive slot = true ↔
    slot ∈ (s.push shape).1.slots ∨ s.slotIsLive slot = true := by
  rw [slotIsLive_iff, slotIsLive_iff, mem_slots_ref_push_iff, id_push, slots_push, slots_ref_push,
    List.map_map]
  by_cases low : slot.depth < s.slots.length
  · have other (i : Nat) : slot.depth ≠ s.depth + i := by
      have depth : s.depth = s.slots.length := rfl
      omega
    simp [List.getElem?_append_left low, other]
  · have high : s.slots.length ≤ slot.depth := Nat.le_of_not_lt low
    have outside : s.slots[slot.depth]? = none := List.getElem?_eq_none high
    rw [List.getElem?_append_right high, outside, List.getElem?_map]
    simp only [reduceCtorEq, and_false, or_false]
    refine and_congr_right fun _ => ?_
    have depth : s.depth = s.slots.length := rfl
    constructor
    · intro found
      obtain ⟨i, place, generation⟩ := Option.map_eq_some_iff.1 found
      obtain ⟨within, same⟩ := List.getElem?_eq_some_iff.1 place
      rw [List.length_range] at within
      rw [List.getElem_range] at same
      exact ⟨i, by omega, by omega, generation.symm⟩
    · intro h
      obtain ⟨i, within, place, generation⟩ := h
      have index : slot.depth - s.slots.length = i := by omega
      rw [index, List.getElem?_range within, generation]
      rfl

end Push

/-- The pushes that have not been popped, by their handles from the innermost on. Between two pushes the
numbers may advance, as they do when others are pushed and popped. -/
inductive Holds : StatStack → List StatRef → Prop
  | nothing (id next : Nat) : Holds ⟨id, [], [], next⟩ []
  | push {s : StatStack} {refs : List StatRef} (below : s.Holds refs) (shape : Shape) (n : Nat) :
      Holds { (s.push shape).2 with nextGeneration := (s.push shape).2.nextGeneration + n }
        ((s.push shape).1 :: refs)

/-- The stack once `n` more numbers have been given out. -/
def advanced (n : Nat) (s : StatStack) : StatStack := { s with nextGeneration := s.nextGeneration + n }

theorem isValid_advanced (s : StatStack) (n : Nat) (ref : StatRef) :
    (s.advanced n).isValid ref = s.isValid ref := by
  cases ref with
  | single slot => rfl
  | aggregate op left right => rfl

namespace Holds
variable {s : StatStack} {refs : List StatRef}

theorem new (id : Nat) : (StatStack.new id).Holds [] := .nothing id 1

theorem pushed (holds : s.Holds refs) (shape : Shape) :
    (s.push shape).2.Holds ((s.push shape).1 :: refs) := holds.push shape 0

theorem advanced (holds : s.Holds refs) (n : Nat) : (s.advanced n).Holds refs := by
  cases holds with
  | nothing id next => exact .nothing id (next + n)
  | push below shape m =>
    have more := below.push shape (m + n)
    rw [← Nat.add_assoc] at more
    exact more

/-- A slot is live exactly when it belongs to a push that has not been popped. -/
theorem slotIsLive_iff (holds : s.Holds refs) (slot : SlotRef) :
    s.slotIsLive slot = true ↔ ∃ ref ∈ refs, slot ∈ ref.slots := by
  induction holds with
  | nothing id next =>
    rw [StatStack.slotIsLive_iff]
    simp
  | @push s refs below shape n ih =>
    have here := s.slotIsLive_push_iff shape slot
    rw [ih] at here
    rw [List.exists_mem_cons_iff]
    exact here

theorem owned (holds : s.Holds refs) {ref : StatRef} (member : ref ∈ refs) {slot : SlotRef}
    (inside : slot ∈ ref.slots) : slot.stack = s.id ∧ slot.generation < s.nextGeneration := by
  induction holds with
  | nothing id next => cases member
  | @push s refs below shape n ih =>
    simp only [id_push, nextGeneration_push]
    rcases List.mem_cons.1 member with new | old
    · rw [new, mem_slots_ref_push_iff] at inside
      obtain ⟨owner, i, within, -, generation⟩ := inside
      exact ⟨owner, by omega⟩
    · obtain ⟨owner, generation⟩ := ih old
      exact ⟨owner, by omega⟩

theorem generation_lt (holds : s.Holds refs) {slot : SlotRef} (live : s.slotIsLive slot = true) :
    slot.generation < s.nextGeneration := by
  obtain ⟨ref, member, inside⟩ := (holds.slotIsLive_iff slot).1 live
  exact (holds.owned member inside).2

theorem isValid_of_mem (holds : s.Holds refs) {ref : StatRef} (member : ref ∈ refs) :
    s.isValid ref = true :=
  (s.isValid_iff ref).2 fun slot inside => (holds.slotIsLive_iff slot).2 ⟨ref, member, inside⟩

/-- A handle shares no slot with those below it. -/
theorem apart {ref : StatRef} (holds : s.Holds (ref :: refs)) {slot : SlotRef} (inside : slot ∈ ref.slots)
    {below : StatRef} (member : below ∈ refs) : slot ∉ below.slots := by
  cases holds with
  | @push s refs held shape n =>
    intro again
    obtain ⟨-, i, -, -, generation⟩ := (s.mem_slots_ref_push_iff shape slot).1 inside
    have older := (held.owned member again).2
    omega

theorem widths_eq (holds : s.Holds refs) : s.widths = refs.map (·.slots.length) := by
  induction holds with
  | nothing id next => rfl
  | push below shape n ih => rw [widths_push, List.map_cons, length_slots_ref_push, ih]

theorem sum_widths (holds : s.Holds refs) : s.widths.sum = s.depth := by
  induction holds with
  | nothing id next => rfl
  | @push s refs below shape n ih =>
    have grown : (s.push shape).2.depth = s.depth + shape.width := s.depth_push shape
    rw [widths_push, List.sum_cons, ih, Nat.add_comm]
    exact grown.symm

theorem pop_nil (holds : s.Holds []) : s.pop = .error .stackUnderflow := by
  cases holds
  rfl

/-- A pop takes the innermost push away with exactly its slots. -/
theorem pop_eq {ref : StatRef} (holds : s.Holds (ref :: refs)) :
    ∃ t, s.pop = .ok (ref.slots.length, t) ∧ t.Holds refs ∧
      s.slots = t.slots ++ ref.slots.map (·.generation) ∧
      t.id = s.id ∧ t.widths = s.widths.tail ∧ t.nextGeneration = s.nextGeneration := by
  cases holds with
  | @push s refs below shape n =>
    refine ⟨s.advanced (shape.width + n), ?_, below.advanced _, s.slots_push shape, ?_, ?_, ?_⟩
    · have popped := s.pop_push shape
      unfold pop at popped ⊢
      rw [widths_push] at popped ⊢
      simp only [Except.ok.injEq, Prod.mk.injEq] at popped
      have kept : (s.push shape).2.slots.take ((s.push shape).2.depth - shape.width) = s.slots :=
        congrArg StatStack.slots popped.2
      simp only [Except.ok.injEq, Prod.mk.injEq]
      refine ⟨(s.length_slots_ref_push shape).symm, ?_⟩
      show StatStack.mk _ ((s.push shape).2.slots.take ((s.push shape).2.depth - shape.width)) _ _ = _
      rw [kept, id_push, nextGeneration_push, Nat.add_assoc]
      rfl
    · exact (s.id_push shape).symm
    · rw [widths_push]
      rfl
    · rw [nextGeneration_push, Nat.add_assoc]
      rfl

end Holds

/-- The handle of the innermost push is stale once it is popped. -/
theorem Holds.stale_of_pop {s t : StatStack} {ref : StatRef} {refs : List StatRef}
    (holds : s.Holds (ref :: refs)) (below : t.Holds refs) : t.isValid ref = false := by
  obtain ⟨slot, inside⟩ := List.exists_mem_of_ne_nil _ ref.slots_ne_nil
  rw [← Bool.not_eq_true]
  intro live
  obtain ⟨other, member, again⟩ := (below.slotIsLive_iff slot).1 ((t.isValid_iff ref).1 live slot inside)
  exact holds.apart inside member again

/-- The stacks there are: one is opened empty, pushed onto and popped. -/
inductive Reached : StatStack → Prop
  | new (id : Nat) : Reached (.new id)
  | push {s : StatStack} (before : Reached s) (shape : Shape) : Reached (s.push shape).2
  | pop {s t : StatStack} {width : Nat} (before : Reached s) (popped : s.pop = .ok (width, t)) : Reached t

theorem Reached.holds {s : StatStack} (reached : s.Reached) : ∃ refs, s.Holds refs := by
  induction reached with
  | new id => exact ⟨[], .new id⟩
  | push before shape ih =>
    obtain ⟨refs, holds⟩ := ih
    exact ⟨_, holds.pushed shape⟩
  | pop before popped ih =>
    obtain ⟨refs, holds⟩ := ih
    cases refs with
    | nil =>
      rw [holds.pop_nil] at popped
      cases popped
    | cons ref refs =>
      obtain ⟨t, popped', below, -⟩ := holds.pop_eq
      rw [popped'] at popped
      cases popped
      exact ⟨refs, below⟩

/-- No push from now on returns a slot that is live now. -/
theorem Reached.slotIsLive_later {s : StatStack} (reached : s.Reached) {u : StatStack}
    (later : s.nextGeneration ≤ u.nextGeneration) (shape : Shape) {slot : SlotRef}
    (member : slot ∈ (u.push shape).1.slots) : s.slotIsLive slot = false := by
  obtain ⟨refs, holds⟩ := reached.holds
  obtain ⟨-, i, -, -, generation⟩ := (u.mem_slots_ref_push_iff shape slot).1 member
  rw [← Bool.not_eq_true]
  intro live
  have old := holds.generation_lt live
  omega

theorem Reached.isValid_later {s : StatStack} (reached : s.Reached) {u : StatStack}
    (later : s.nextGeneration ≤ u.nextGeneration) (shape : Shape) :
    s.isValid (u.push shape).1 = false := by
  obtain ⟨slot, member⟩ := List.exists_mem_of_ne_nil _ (u.push shape).1.slots_ne_nil
  rw [← Bool.not_eq_true]
  intro live
  have here := (s.isValid_iff _).1 live slot member
  rw [reached.slotIsLive_later later shape member] at here
  cases here

end StatStack

/-- A slot is compiled to its offset below the top while it is live, and refused from then on. -/
theorem Stat.compile_slot (scope : Scope) (slot : SlotRef) :
    (Stat.slot slot).compile scope =
      if scope.stack.slotIsLive slot then .ok [.ref (scope.depth - slot.depth - 1)]
      else .error (.staleReference slot.depth) := by
  have place : scope.offset slot =
      if scope.stack.slotIsLive slot then .ok (scope.depth - (slot.depth + 1))
      else .error (.staleReference slot.depth) := by
    unfold Scope.offset StatStack.requireValid
    by_cases live : scope.stack.slotIsLive slot = true
    · have below : slot.depth < scope.depth :=
        (List.getElem?_eq_some_iff.1 ((scope.stack.slotIsLive_iff slot).1 live).2).1
      have valid : scope.stack.isValid (.single slot) = true := live
      rw [if_pos live, if_pos valid]
      exact if_pos below
    · have stale : ¬scope.stack.isValid (.single slot) = true := live
      rw [if_neg live, if_neg stale]
      rfl
  rw [compile, place]
  by_cases live : scope.stack.slotIsLive slot = true
  · rw [if_pos live, if_pos live, Nat.sub_sub]
    rfl
  · rw [if_neg live, if_neg live]
    rfl

end Rollup
