import Mathlib.Data.List.Induction
import Mathlib.Data.List.Pairwise
import Rollup.Proofs.Liveness.Registration
import Rollup.Proofs.Liveness.StatStack

namespace Rollup

namespace Ledger

/-- A push: its number among all pushes, the stack it was made on, and the handle it returned. -/
structure Push where
  number : Nat
  owner : Nat
  ref : StatRef
  deriving DecidableEq

/-- A stack, and the pushes on it that have not been popped, the innermost first. -/
structure Line where
  stack : StatStack
  pending : List Push
  deriving DecidableEq

/-- Stacks are named by the order in which they were opened. -/
inductive Event where
  | opened
  /-- Something else takes the next id. -/
  | skipped
  | push (stack : Nat) (shape : Shape)
  | pop (stack : Nat)

end Ledger

/-- All stacks with their pending pushes, all pushes that were ever made, the latest first, and the id of
the next stack. -/
structure Ledger where
  nextId : Nat
  lines : List Ledger.Line
  pushes : List Ledger.Push

namespace Ledger

def empty : Ledger := ⟨1, [], []⟩

def Line.pushed (line : Line) (number owner : Nat) (shape : Shape) : Line :=
  ⟨(line.stack.push shape).2, ⟨number, owner, (line.stack.push shape).1⟩ :: line.pending⟩

/-- A pop takes the innermost pending push, if there is one, whatever the stack makes of it. -/
def Line.popped (line : Line) : Line where
  stack := match line.stack.pop with
    | .ok (_, stack) => stack
    | .error _ => line.stack
  pending := line.pending.tail

/-- What happens to a stack that was never opened does not happen. -/
def step (l : Ledger) : Event → Ledger
  | .opened => { l with nextId := l.nextId + 1, lines := l.lines ++ [⟨.new l.nextId, []⟩] }
  | .skipped => { l with nextId := l.nextId + 1 }
  | .push k shape =>
    match l.lines[k]? with
    | none => l
    | some line =>
      { l with
        lines := l.lines.set k (line.pushed l.pushes.length k shape)
        pushes := ⟨l.pushes.length, k, (line.stack.push shape).1⟩ :: l.pushes }
  | .pop k =>
    match l.lines[k]? with
    | none => l
    | some line => { l with lines := l.lines.set k line.popped }

def run (events : List Event) : Ledger := events.foldl step empty

/-- Stacks have different ids, each holds its pending pushes, and no two pushes returned a slot in
common. -/
structure Sound (l : Ledger) : Prop where
  ids : (l.lines.map (·.stack.id)).Nodup
  id_lt : ∀ line ∈ l.lines, line.stack.id < l.nextId
  holds : ∀ line ∈ l.lines, line.stack.Holds (line.pending.map (·.ref))
  pending : ∀ k line, l.lines[k]? = some line → ∀ p ∈ line.pending, p ∈ l.pushes ∧ p.owner = k
  owned : ∀ p ∈ l.pushes, ∃ line, l.lines[p.owner]? = some line ∧
    ∀ slot ∈ p.ref.slots, slot.stack = line.stack.id ∧ slot.generation < line.stack.nextGeneration
  apart : l.pushes.Pairwise fun p q => ∀ slot ∈ p.ref.slots, slot ∉ q.ref.slots

namespace Sound
variable {l : Ledger}

theorem empty : Ledger.empty.Sound where
  ids := List.nodup_nil
  id_lt := List.forall_mem_nil _
  holds := List.forall_mem_nil _
  pending k line here := by cases here
  owned := List.forall_mem_nil _
  apart := .nil

/-- Stacks with the same id are the same. -/
theorem eq_of_id (sound : l.Sound) {j k : Nat} {line line' : Line} (first : l.lines[j]? = some line)
    (second : l.lines[k]? = some line') (same : line.stack.id = line'.stack.id) : j = k :=
  eq_of_ids sound.ids first second same

theorem opened (sound : l.Sound) : (l.step .opened).Sound where
  ids := nodup_ids_concat sound.ids sound.id_lt
  id_lt line member := by
    rcases List.mem_append.1 member with old | new
    · exact Nat.lt_succ_of_lt (sound.id_lt line old)
    · rw [List.mem_singleton.1 new]
      exact Nat.lt_succ_self _
  holds line member := by
    rcases List.mem_append.1 member with old | new
    · exact sound.holds line old
    · rw [List.mem_singleton.1 new]
      exact .new _
  pending k line here p member := by
    have found : (l.lines ++ [Line.mk (.new l.nextId) []])[k]? = some line := here
    by_cases old : k < l.lines.length
    · rw [List.getElem?_append_left old] at found
      exact sound.pending k line found p member
    · rw [List.getElem?_append_right (Nat.le_of_not_lt old)] at found
      rw [List.mem_singleton.1 (List.mem_of_getElem? found)] at member
      cases member
  owned p member := by
    obtain ⟨line, here, owns⟩ := sound.owned p member
    refine ⟨line, ?_, owns⟩
    show (l.lines ++ [_])[p.owner]? = some line
    rw [List.getElem?_append_left (List.getElem?_eq_some_iff.1 here).1]
    exact here
  apart := sound.apart

/-- A stack changes to one with the same id and no lower numbers, and with it come pushes whose slots have
the numbers in between. -/
theorem set (sound : l.Sound) {k : Nat} {line : Line} (line' : Line) (fresh : List Push)
    (here : l.lines[k]? = some line) (id : line'.stack.id = line.stack.id)
    (generation : line.stack.nextGeneration ≤ line'.stack.nextGeneration)
    (holds : line'.stack.Holds (line'.pending.map (·.ref)))
    (pending : ∀ p ∈ line'.pending, p ∈ fresh ++ l.pushes ∧ p.owner = k)
    (owned : ∀ p ∈ fresh, p.owner = k ∧ ∀ slot ∈ p.ref.slots, slot.stack = line.stack.id ∧
      line.stack.nextGeneration ≤ slot.generation ∧ slot.generation < line'.stack.nextGeneration)
    (apart : fresh.Pairwise fun p q => ∀ slot ∈ p.ref.slots, slot ∉ q.ref.slots) :
    Sound { l with lines := l.lines.set k line', pushes := fresh ++ l.pushes } := by
  have within : k < l.lines.length := (List.getElem?_eq_some_iff.1 here).1
  have look (j : Nat) : (l.lines.set k line')[j]? = if k = j then some line' else l.lines[j]? := by
    rw [List.getElem?_set]
    by_cases same : k = j
    · rw [if_pos same, if_pos same, if_pos within]
    · rw [if_neg same, if_neg same]
  refine ⟨?_, ?_, ?_, ?_, ?_, ?_⟩
  · show ((l.lines.set k line').map (·.stack.id)).Nodup
    rw [ids_set here id]
    exact sound.ids
  · intro other member
    rcases List.mem_or_eq_of_mem_set member with old | new
    · exact sound.id_lt other old
    · rw [new, id]
      exact sound.id_lt line (List.mem_of_getElem? here)
  · intro other member
    rcases List.mem_or_eq_of_mem_set member with old | new
    · exact sound.holds other old
    · rw [new]
      exact holds
  · intro j other found p member
    have found' := (look j).symm.trans found
    by_cases same : k = j
    · rw [if_pos same] at found'
      cases found'
      exact same ▸ pending p member
    · rw [if_neg same] at found'
      obtain ⟨made, owner⟩ := sound.pending j other found' p member
      exact ⟨List.mem_append_right _ made, owner⟩
  · intro p member
    rcases List.mem_append.1 member with new | old
    · obtain ⟨owner, slots⟩ := owned p new
      refine ⟨line', (look _).trans (if_pos owner.symm), ?_⟩
      intro slot inside
      obtain ⟨stack, -, below⟩ := slots slot inside
      exact ⟨stack.trans id.symm, below⟩
    · obtain ⟨other, found, slots⟩ := sound.owned p old
      by_cases same : k = p.owner
      · rw [← same, here] at found
        cases found
        refine ⟨line', (look _).trans (if_pos same), ?_⟩
        intro slot inside
        obtain ⟨stack, below⟩ := slots slot inside
        exact ⟨stack.trans id.symm, Nat.lt_of_lt_of_le below generation⟩
      · exact ⟨other, (look _).trans ((if_neg same).trans found), slots⟩
  · rw [List.pairwise_append]
    refine ⟨apart, sound.apart, ?_⟩
    intro p new q old slot inside inside'
    obtain ⟨-, slots⟩ := owned p new
    obtain ⟨stack, above, -⟩ := slots slot inside
    obtain ⟨other, found, slots'⟩ := sound.owned q old
    obtain ⟨stack', below⟩ := slots' slot inside'
    -- The same id means the same stack, whose numbers were given out before.
    have same := sound.eq_of_id here found (stack.symm.trans stack')
    rw [← same, here] at found
    cases found
    omega

theorem step (sound : l.Sound) (e : Event) : (l.step e).Sound := by
  cases e with
  | opened => exact sound.opened
  | skipped =>
    refine ⟨sound.ids, ?_, sound.holds, sound.pending, sound.owned, sound.apart⟩
    intro line member
    exact Nat.lt_succ_of_lt (sound.id_lt line member)
  | push k shape =>
    cases here : l.lines[k]? with
    | none =>
      simp only [Ledger.step, here]
      exact sound
    | some line =>
      simp only [Ledger.step, here]
      apply sound.set (line.pushed l.pushes.length k shape)
        [⟨l.pushes.length, k, (line.stack.push shape).1⟩] here
      · exact line.stack.id_push shape
      · exact Nat.le_trans (Nat.le_add_right _ _) (Nat.le_of_eq (line.stack.nextGeneration_push shape).symm)
      · exact (sound.holds line (List.mem_of_getElem? here)).pushed shape
      · intro p member
        rcases List.mem_cons.1 member with new | old
        · rw [new]
          exact ⟨List.mem_cons_self, rfl⟩
        · obtain ⟨made, owner⟩ := sound.pending k line here p old
          exact ⟨List.mem_cons_of_mem _ made, owner⟩
      · intro p member
        rw [List.mem_singleton.1 member]
        refine ⟨rfl, ?_⟩
        intro slot inside
        obtain ⟨stack, i, within, -, generation⟩ :=
          (line.stack.mem_slots_ref_push_iff shape slot).1 inside
        have next : (line.pushed l.pushes.length k shape).stack.nextGeneration =
            line.stack.nextGeneration + shape.width := line.stack.nextGeneration_push shape
        rw [next]
        exact ⟨stack, by omega, by omega⟩
      · exact List.pairwise_singleton _ _
  | pop k =>
    cases here : l.lines[k]? with
    | none =>
      simp only [Ledger.step, here]
      exact sound
    | some line =>
      simp only [Ledger.step, here]
      have holds := sound.holds line (List.mem_of_getElem? here)
      have pending := sound.pending k line here
      obtain ⟨stack, waiting⟩ := line
      cases waiting with
      | nil =>
        have same : Line.popped ⟨stack, []⟩ = ⟨stack, []⟩ := by
          rw [Line.popped, holds.pop_nil]
          rfl
        rw [same]
        exact sound.set _ [] here rfl (Nat.le_refl _) holds (List.forall_mem_nil _) (List.forall_mem_nil _) .nil
      | cons p rest =>
        obtain ⟨t, popped, below, -, id, -, generation⟩ := holds.pop_eq
        have taken : Line.popped ⟨stack, p :: rest⟩ = ⟨t, rest⟩ := by
          rw [Line.popped, popped]
          rfl
        rw [taken]
        apply sound.set ⟨t, rest⟩ [] here id (Nat.le_of_eq generation.symm) below
        · intro q member
          exact pending q (List.mem_cons_of_mem p member)
        · exact List.forall_mem_nil _
        · exact .nil

theorem run (events : List Event) : (Ledger.run events).Sound := by
  induction events using List.reverseRecOn with
  | nil => exact .empty
  | append_singleton before e ih =>
    rw [Ledger.run, List.foldl_append]
    exact ih.step e

/-- A slot that a push returned is live on a stack exactly when this push is pending there. -/
theorem slotIsLive_iff (sound : l.Sound) {k : Nat} {line : Line} (here : l.lines[k]? = some line)
    {p : Push} (made : p ∈ l.pushes) {slot : SlotRef} (inside : slot ∈ p.ref.slots) :
    line.stack.slotIsLive slot = true ↔ p.owner = k ∧ p ∈ line.pending := by
  rw [(sound.holds line (List.mem_of_getElem? here)).slotIsLive_iff]
  constructor
  · intro h
    obtain ⟨ref, held, inside'⟩ := h
    obtain ⟨q, pending, rfl⟩ := List.mem_map.1 held
    obtain ⟨made', owner⟩ := sound.pending k line here q pending
    by_cases same : p = q
    · rw [same]
      exact ⟨owner, pending⟩
    · have symmetric : Std.Symm fun x y : Push => ∀ slot ∈ x.ref.slots, slot ∉ y.ref.slots :=
        ⟨fun x y disjoint slot inY inX => disjoint slot inX inY⟩
      exact absurd inside' (sound.apart.forall made made' same slot inside)
  · intro h
    exact ⟨p.ref, List.mem_map_of_mem h.2, inside⟩

end Sound

/-- Whatever happened to any number of stacks, a handle is live on a stack exactly when the push that
returned it was made on this stack and has not been popped, and so is each of its slots alone. A live slot
compiles to its offset below the top, and any other is refused. The widths of a stack make up its depth,
and a pop drops the slots of the innermost pending push. -/
theorem liveness_exact (events : List Event) (k : Nat) (line : Line)
    (here : (run events).lines[k]? = some line) :
    (∀ p ∈ (run events).pushes,
      (line.stack.isValid p.ref = true ↔ p.owner = k ∧ p ∈ line.pending) ∧
      ∀ slot ∈ p.ref.slots,
        (line.stack.isValid (.single slot) = true ↔ p.owner = k ∧ p ∈ line.pending) ∧
        ∀ metrics : MetricRegistry,
          (p.owner = k ∧ p ∈ line.pending → slot.depth + 1 ≤ line.stack.depth ∧
            (Stat.slot slot).compile ⟨line.stack, metrics⟩ =
              .ok [.ref (line.stack.depth - slot.depth - 1)]) ∧
          (¬(p.owner = k ∧ p ∈ line.pending) →
            (Stat.slot slot).compile ⟨line.stack, metrics⟩ = .error (.staleReference slot.depth))) ∧
    line.stack.widths.sum = line.stack.depth ∧
    match line.pending with
    | [] => line.stack.pop = .error .stackUnderflow
    | p :: _ => ∃ stack, line.stack.pop = .ok (p.ref.slots.length, stack) ∧
        line.stack.slots = stack.slots ++ p.ref.slots.map (·.generation) ∧
        line.stack.widths = p.ref.slots.length :: stack.widths ∧
        stack.id = line.stack.id ∧ stack.nextGeneration = line.stack.nextGeneration := by
  have sound := Sound.run events
  have holds := sound.holds line (List.mem_of_getElem? here)
  refine ⟨?_, holds.sum_widths, ?_⟩
  · intro p made
    have alone (slot : SlotRef) (inside : slot ∈ p.ref.slots) := sound.slotIsLive_iff here made inside
    refine ⟨?_, ?_⟩
    · rw [StatStack.isValid_iff]
      obtain ⟨slot, inside⟩ := List.exists_mem_of_ne_nil _ p.ref.slots_ne_nil
      constructor
      · intro live
        exact (alone slot inside).1 (live slot inside)
      · intro pending slot' inside'
        exact (alone slot' inside').2 pending
    · intro slot inside
      refine ⟨alone slot inside, fun metrics => ⟨?_, ?_⟩⟩
      · intro pending
        have live := (alone slot inside).2 pending
        have place := ((line.stack.slotIsLive_iff slot).1 live).2
        refine ⟨(List.getElem?_eq_some_iff.1 place).1, ?_⟩
        rw [Stat.compile_slot]
        exact if_pos live
      · intro gone
        rw [Stat.compile_slot]
        exact if_neg (mt (alone slot inside).1 gone)
  · cases waiting : line.pending with
    | nil =>
      rw [waiting] at holds
      exact holds.pop_nil
    | cons p rest =>
      rw [waiting] at holds
      obtain ⟨t, popped, -, slots, id, widths, generation⟩ := holds.pop_eq
      refine ⟨t, popped, slots, ?_, id, generation⟩
      rw [widths, holds.widths_eq]
      rfl

/-- A ratio is pushed and popped, and its lower slot is used again; another stack is pushed onto in
between. -/
def reuse : List Event :=
  [.opened, .skipped, .opened, .push 0 (.combined .divide), .push 1 .single, .pop 0, .push 0 .single]

theorem liveness_exact_of_reuse : ∃ line, (run reuse).lines[0]? = some line ∧
    line.stack.isValid (.aggregate .divide ⟨1, 0, 1⟩ ⟨1, 1, 2⟩) = false ∧
    line.stack.isValid (.single ⟨3, 0, 1⟩) = false ∧
    line.stack.isValid (.single ⟨1, 0, 3⟩) = true ∧
    (Stat.slot ⟨1, 0, 1⟩).compile ⟨line.stack, .new 2⟩ = .error (.staleReference 0) ∧
    (Stat.slot ⟨1, 0, 3⟩).compile ⟨line.stack, .new 2⟩ = .ok [.ref 0] := by
  let again : Push := ⟨2, 0, .single ⟨1, 0, 3⟩⟩
  let other : Push := ⟨1, 1, .single ⟨3, 0, 1⟩⟩
  let first : Push := ⟨0, 0, .aggregate .divide ⟨1, 0, 1⟩ ⟨1, 1, 2⟩⟩
  have pushes : (run reuse).pushes = [again, other, first] := rfl
  have here : (run reuse).lines[0]? = some ⟨⟨1, [3], [1], 4⟩, [again]⟩ := rfl
  obtain ⟨live, -⟩ := liveness_exact reuse 0 _ here
  rw [pushes] at live
  obtain ⟨firstLive, firstSlots⟩ := live first (by decide)
  obtain ⟨otherLive, -⟩ := live other (by decide)
  obtain ⟨againLive, againSlots⟩ := live again (by decide)
  obtain ⟨-, stale⟩ := firstSlots ⟨1, 0, 1⟩ (by decide)
  obtain ⟨-, compiled⟩ := againSlots ⟨1, 0, 3⟩ (by decide)
  refine ⟨_, here, ?_, ?_, ?_, ?_, ?_⟩
  · exact Bool.eq_false_iff.2 (mt firstLive.1 (by decide))
  · exact Bool.eq_false_iff.2 (mt otherLive.1 (by decide))
  · exact againLive.2 (by decide)
  · exact (stale _).2 (by decide)
  · exact ((compiled _).1 (by decide)).2

end Ledger
end Rollup
