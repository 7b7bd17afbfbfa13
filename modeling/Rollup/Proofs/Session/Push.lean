import Rollup.Proofs.Stat.Evaluation
import Rollup.Session.Push

namespace Rollup

namespace Entry

/-- The entry with the values of one more statistic on top. -/
def pushed (stat : Stat) (e : Entry) : Entry := { e with slots := e.slots ++ stat.slotValues e.toReading }

/-- The entry with only the values of its lowest `n` slots. -/
def dropped (n : Nat) (e : Entry) : Entry := { e with slots := e.slots.take n }

/-- An entry with `n` more values on top. -/
def Loaded (n : Nat) (e e' : Entry) : Prop :=
  ∃ values : List Int64, values.length = n ∧ e' = { e with slots := e.slots ++ values }

@[simp] theorem group_pushed (stat : Stat) (e : Entry) : (e.pushed stat).group = e.group := rfl

@[simp] theorem doc_pushed (stat : Stat) (e : Entry) : (e.pushed stat).doc = e.doc := rfl

theorem length_slots_pushed (stat : Stat) (e : Entry) :
    (e.pushed stat).slots.length = e.slots.length + stat.width := by
  rw [pushed, List.length_append, stat.length_slotValues]

theorem loaded_pushed (stat : Stat) (e : Entry) : e.Loaded stat.width (e.pushed stat) :=
  ⟨stat.slotValues e.toReading, stat.length_slotValues _, rfl⟩

theorem forall₂_loaded_zero (es : List Entry) : List.Forall₂ (Entry.Loaded 0) es es :=
  List.forall₂_same.2 fun _ _ => ⟨[], rfl, by rw [List.append_nil]⟩

theorem dropped_of_loaded {n : Nat} {e e' : Entry} (loaded : e.Loaded n e') :
    e'.dropped e.slots.length = e := by
  obtain ⟨values, -, rfl⟩ := loaded
  rw [dropped, List.take_left]

theorem loaded_dropped {n width : Nat} {e : Entry} (full : e.slots.length = width) (enough : n ≤ width) :
    (e.dropped (width - n)).Loaded n e := by
  refine ⟨e.slots.drop (width - n), ?_, ?_⟩
  · rw [List.length_drop, full]
    exact Nat.sub_sub_self enough
  · show e = { e with slots := e.slots.take (width - n) ++ e.slots.drop (width - n) }
    rw [List.take_append_drop]

theorem load_compile {scope : Scope} {e : Entry} (inStep : e.slots.length = scope.depth) {stat : Stat}
    (built : stat.Built) {tokens : List Token} (h : stat.compile scope = .ok tokens) :
    e.load tokens stat.width = .ok (e.pushed stat) := by
  rw [load, Stat.evaluate_compile inStep built h]
  show (if (stat.slotValues e.toReading).length = stat.width then _ else _) = _
  rw [if_pos (stat.length_slotValues e.toReading)]
  rfl

end Entry

namespace Session

/-- The values of the documents are in step with the stack: there are as many columns as occupied slots,
and every document has a value in each. -/
structure InStep (s : Session) : Prop where
  width : s.width = s.stack.depth
  slots : ∀ e ∈ s.entries, e.slots.length = s.width

/-- The session after a push that succeeds. -/
def pushed (stat : Stat) (s : Session) : Session :=
  { s with
    entries := s.entries.map (Entry.pushed stat)
    width := s.width + stat.width
    stack := (s.stack.push stat.shape).2 }

/-- The session after `n` slots were occupied and given up: only the numbers of later pushes differ. -/
def restamped (n : Nat) (s : Session) : Session :=
  { s with stack := { s.stack with nextGeneration := s.stack.nextGeneration + n } }

theorem InStep.length_slots {s : Session} (inStep : s.InStep) {e : Entry} (h : e ∈ s.entries) :
    e.slots.length = s.scope.depth :=
  (inStep.slots e h).trans inStep.width

theorem InStep.pushed {s : Session} (inStep : s.InStep) (stat : Stat) : (s.pushed stat).InStep where
  width := by
    show s.width + stat.width = _
    rw [inStep.width]
    exact (s.stack.depth_push stat.shape).symm
  slots e h := by
    obtain ⟨e', member, rfl⟩ := List.mem_map.1 h
    rw [Entry.length_slots_pushed, inStep.slots e' member]
    rfl

theorem InStep.restamped {s : Session} (inStep : s.InStep) (n : Nat) : (s.restamped n).InStep :=
  ⟨inStep.width, inStep.slots⟩

theorem on_load_compile {s : Session} (inStep : s.InStep) {stat : Stat} (built : stat.Built)
    {tokens : List Token} (h : stat.compile s.scope = .ok tokens) :
    (load tokens stat.width).on s =
      (.ok (), { s with
        entries := s.entries.map (Entry.pushed stat)
        width := s.width + stat.width }) := by
  have loaded : s.entries.mapM (Entry.load tokens stat.width) =
      .ok (s.entries.map (Entry.pushed stat)) :=
    Outcome.mapM_eq_ok_map fun e member => Entry.load_compile (inStep.length_slots member) built h
  simp only [load, Action.on_bind, Action.on_get, Action.on_ofExcept, Action.on_set, loaded]

theorem on_occupy (shape : Shape) (s : Session) :
    (occupy shape).on s = (.ok (s.stack.push shape).1, { s with stack := (s.stack.push shape).2 }) :=
  rfl

/-- A push does nothing unless the statistic compiles. -/
theorem on_push_of_error {s : Session} {stat : Stat} {e : Fault} (h : stat.compile s.scope = .error e) :
    (push stat).on s = (.error e, s) := by
  simp only [push, Action.on_bind, Action.on_get, Action.on_ofExcept, h]

theorem on_push {s : Session} (inStep : s.InStep) {stat : Stat} (built : stat.Built)
    {tokens : List Token} (h : stat.compile s.scope = .ok tokens) :
    (push stat).on s = (.ok (s.stack.push stat.shape).1, s.pushed stat) := by
  simp only [push, Action.on_bind, Action.on_get, Action.on_ofExcept, h,
    on_load_compile inStep built h, on_occupy]
  rfl

theorem on_push_eq_ok_iff {s : Session} (inStep : s.InStep) {stat : Stat} (built : stat.Built) :
    (∃ ref s', (push stat).on s = (.ok ref, s')) ↔ ∃ tokens, stat.compile s.scope = .ok tokens := by
  constructor
  · intro h
    obtain ⟨ref, s', h⟩ := h
    cases compiled : stat.compile s.scope with
    | ok tokens => exact ⟨tokens, rfl⟩
    | error e =>
      rw [on_push_of_error compiled] at h
      cases h
  · intro h
    obtain ⟨tokens, compiled⟩ := h
    exact ⟨_, _, on_push inStep built compiled⟩

/-- What a push that succeeds returns and leaves behind. -/
theorem eq_pushed_of_on_push {s s' : Session} (inStep : s.InStep) {stat : Stat} (built : stat.Built)
    {ref : StatRef} (h : (push stat).on s = (.ok ref, s')) :
    ref = (s.stack.push stat.shape).1 ∧ s' = s.pushed stat := by
  obtain ⟨tokens, compiled⟩ := (on_push_eq_ok_iff inStep built).1 ⟨ref, s', h⟩
  rw [on_push inStep built compiled] at h
  cases h
  exact ⟨rfl, rfl⟩

theorem on_load (tokens : List Token) (width : Nat) (s : Session) :
    (load tokens width).on s = match s.entries.mapM (Entry.load tokens width) with
      | .error e => (.error e, s)
      | .ok entries => (.ok (), { s with entries := entries, width := s.width + width }) := by
  simp only [load, Action.on_bind, Action.on_get, Action.on_ofExcept, Action.on_set]
  cases s.entries.mapM (Entry.load tokens width) with
  | error e => rfl
  | ok entries => rfl

theorem on_unload (width : Nat) (s : Session) :
    (unload width).on s =
      if s.width < width then (.error .stackUnderflow, s)
      else (.ok (), { s with
        entries := s.entries.map (Entry.dropped (s.width - width))
        width := s.width - width }) := by
  simp only [unload, Action.on_bind, Action.on_get]
  by_cases few : s.width < width
  · rw [if_pos few, if_pos few]
    rfl
  · rw [if_neg few, if_neg few]
    rfl

theorem on_release (s : Session) :
    release.on s = match s.stack.pop with
      | .error e => (.error e, s)
      | .ok (width, stack) => (.ok width, { s with stack := stack }) := by
  simp only [release, Action.on_bind, Action.on_get, Action.on_ofExcept]
  cases s.stack.pop with
  | error e => rfl
  | ok popped => rfl

theorem on_pop {s : Session} {w : Nat} {stack : StatStack} (h : s.stack.pop = .ok (w, stack))
    (enough : w ≤ s.width) :
    pop.on s =
      (.ok (), { s with
        entries := s.entries.map (Entry.dropped (s.width - w))
        width := s.width - w
        stack := stack }) := by
  have released : release.on s = (.ok w, { s with stack := stack }) := by rw [on_release, h]
  rw [pop, Action.on_bind_ok released, on_unload]
  exact if_neg (Nat.not_lt.2 enough)

/-- The handles are gone by the time too few values are found. -/
theorem on_pop_of_few {s : Session} {w : Nat} {stack : StatStack} (h : s.stack.pop = .ok (w, stack))
    (few : s.width < w) : pop.on s = (.error .stackUnderflow, { s with stack := stack }) := by
  have released : release.on s = (.ok w, { s with stack := stack }) := by rw [on_release, h]
  rw [pop, Action.on_bind_ok released, on_unload]
  exact if_pos few

theorem on_pop_of_error {s : Session} {e : Fault} (h : s.stack.pop = .error e) :
    pop.on s = (.error e, s) := by
  have refused : release.on s = (.error e, s) := by rw [on_release, h]
  rw [pop, Action.on_bind_error refused]

/-- The session once the entries got the values of one more statistic and its handle was taken. -/
def loaded (stat : Stat) (entries : List Entry) (s : Session) : Session :=
  { s with
    entries := entries
    width := s.width + stat.width
    stack := (s.stack.push stat.shape).2 }

/-- Popping what was just pushed restores everything but the number of the next push. -/
theorem on_pop_loaded {s : Session} (full : ∀ e ∈ s.entries, e.slots.length = s.width) {stat : Stat}
    {entries : List Entry} (each : List.Forall₂ (Entry.Loaded stat.width) s.entries entries) :
    pop.on (s.loaded stat entries) = (.ok (), s.restamped stat.width) := by
  have popped : (s.loaded stat entries).stack.pop = .ok (stat.width, (s.restamped stat.width).stack) :=
    s.stack.pop_push stat.shape
  have kept : (s.loaded stat entries).width - stat.width = s.width := Nat.add_sub_cancel _ _
  have same : entries.map (Entry.dropped s.width) = s.entries := by
    rw [← List.forall₂_eq_eq_eq, List.forall₂_map_left_iff]
    refine ((List.forall₂_and_left _ _).2 ⟨full, each⟩).flip.imp ?_
    intro e' e h
    rw [← h.1]
    exact Entry.dropped_of_loaded h.2
  rw [on_pop popped (Nat.le_add_left _ _), kept]
  show (Except.ok (), { s.restamped stat.width with entries := entries.map (Entry.dropped s.width) }) = _
  rw [same]
  rfl

theorem on_pop_pushed {s : Session} (inStep : s.InStep) (stat : Stat) :
    pop.on (s.pushed stat) = (.ok (), s.restamped stat.width) := by
  have each : List.Forall₂ (Entry.Loaded stat.width) s.entries (s.entries.map (Entry.pushed stat)) := by
    rw [List.forall₂_map_right_iff, List.forall₂_same]
    exact fun e _ => e.loaded_pushed stat
  exact on_pop_loaded inStep.slots each

/-- Running the instructions of a statistic yields its slot values for every document, so a push can only
fail where compilation does. -/
theorem compiled_push_sound {s : Session} (inStep : s.InStep) {stat : Stat} (built : stat.Built) :
    (∀ tokens, stat.compile s.scope = .ok tokens →
      (∀ e ∈ s.entries, Token.evaluate e.toReading tokens = .ok (stat.slotValues e.toReading) ∧
        (stat.slotValues e.toReading).length = stat.width) ∧
      ((load tokens stat.width).on s).1 = .ok ()) ∧
    ((∃ ref s', (push stat).on s = (.ok ref, s')) ↔ ∃ tokens, stat.compile s.scope = .ok tokens) := by
  refine ⟨fun tokens compiled => ⟨fun e member => ⟨?_, ?_⟩, ?_⟩, on_push_eq_ok_iff inStep built⟩
  · exact Stat.evaluate_compile (inStep.length_slots member) built compiled
  · exact stat.length_slotValues e.toReading
  · rw [on_load_compile inStep built compiled]

/-- One document with the count pushed. -/
def counted : Session := ((push .count).on (.new 0 [⟨[("x", .int 7)]⟩] .standard)).2

/-- A combination of a difference that reads the pushed count back and of a magnitude. -/
def differenceRatio : Stat :=
  .combination .divide (.operation .subtract [.intField "x", .slot ⟨0, 0, 1⟩])
    (.absolute (.constant (-3)))

theorem compiled_push_sound_of_ratio : counted.InStep ∧ differenceRatio.Built ∧
    ∃ tokens, differenceRatio.compile counted.scope = .ok tokens ∧
      (∀ e ∈ counted.entries, Token.evaluate e.toReading tokens = .ok [6, 3]) ∧
      ∃ ref s', (push differenceRatio).on counted = (.ok ref, s') := by
  have inStep : counted.InStep := ⟨rfl, by decide⟩
  have difference : (Stat.operation .subtract [.intField "x", .slot ⟨0, 0, 1⟩]).Built := by
    refine @Stat.Built.operation .subtract [.intField "x", .slot ⟨0, 0, 1⟩] _ ?_ rfl
    simp [Stat.Built.intField, Stat.Built.slot]
  have built : differenceRatio.Built := .combination difference (.absolute (.constant (-3))) rfl
  obtain ⟨sound, pushes⟩ := compiled_push_sound inStep built
  have compiled : differenceRatio.compile counted.scope =
      .ok [.field "x", .ref 0, .operator .subtract, .literal (-3), .absolute] := rfl
  refine ⟨inStep, built, _, compiled, fun e member => ?_, pushes.2 ⟨_, compiled⟩⟩
  have values : differenceRatio.slotValues e.toReading = [6, 3] := by
    revert e
    decide
  rw [((sound _ compiled).1 e member).1, values]

end Session
end Rollup
