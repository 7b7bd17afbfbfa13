import Rollup.Proofs.Session.Bounds

namespace Rollup

/-- An action that leaves a state as it is when it fails on it. -/
def Action.Atomic {σ α : Type} (x : Action σ α) (s : σ) : Prop := ∀ e t, x.on s = (.error e, t) → t = s

namespace Action.Atomic
variable {σ α : Type} {x : Action σ α} {s t : σ}

theorem of_ok {a : α} (done : x.on s = (.ok a, t)) : x.Atomic s := by
  intro e u failed
  rw [done] at failed
  cases failed

theorem of_error {e : Fault} (refused : x.on s = (.error e, s)) : x.Atomic s := by
  intro e' u failed
  rw [refused] at failed
  cases failed
  rfl

end Action.Atomic

namespace Session

section Single
variable (s : Session)

theorem atomic_push (stat : Stat) : (push stat).Atomic s := by
  rcases on_push_cases stat s with ⟨e, refused⟩ | ⟨entries, -, pushed⟩
  · exact .of_error refused
  · exact .of_ok pushed

theorem atomic_load (tokens : List Token) (width : Nat) : (load tokens width).Atomic s := by
  have run := on_load tokens width s
  cases loaded : s.entries.mapM (Entry.load tokens width) with
  | error e =>
    rw [loaded] at run
    exact .of_error run
  | ok entries =>
    rw [loaded] at run
    exact .of_ok run

theorem atomic_unload (width : Nat) : (unload width).Atomic s := by
  by_cases few : s.width < width
  · exact .of_error ((on_unload width s).trans (if_pos few))
  · exact .of_ok ((on_unload width s).trans (if_neg few))

theorem atomic_assign (groups : List GroupId) : (assign groups).Atomic s := by
  by_cases fits : groups.length = s.entries.length
  · exact .of_ok ((on_assign groups s).trans (if_pos fits))
  · exact .of_error ((on_assign groups s).trans (if_neg fits))

theorem atomic_registerMetric (name : String) (values : List Int64) :
    (registerMetric name values).Atomic s := by
  by_cases fits : values.length = s.entries.length
  · exact .of_ok ((on_registerMetric name values s).trans (if_pos fits))
  · exact .of_error ((on_registerMetric name values s).trans (if_neg fits))

/-- A split counts the children before it moves a document. -/
theorem eq_of_on_split_eq_error {s : Session} {f : Field} {keys : KeyMap} {choice : Choice} {e : Fault}
    {t : Session} (failed : (split f keys choice).on s = (.error e, t)) :
    e = .groupLimitExceeded choice.size s.groupLimit ∧ t = s := by
  rw [on_split] at failed
  by_cases many : s.groupLimit < choice.size + 1
  · rw [if_pos many] at failed
    cases failed
    exact ⟨rfl, rfl⟩
  · rw [if_neg many] at failed
    cases failed

theorem atomic_splitExplode (f : Field) (keys : KeyMap) : (splitExplode f keys).Atomic s := by
  intro e t failed
  rw [splitExplode, Action.on_bind_ok (Action.on_get s)] at failed
  exact (eq_of_on_split_eq_error failed).2

/-- The statistic that terms are ranked by is gone again by the time the children are counted. -/
theorem eq_of_on_splitTopK_eq_error (full : ∀ e ∈ s.entries, e.slots.length = s.width) {f : Field}
    {keys : KeyMap} {k : Nat} {sortStat : Stat} {bottom : Bool} {e : Fault} {t : Session}
    (failed : (splitTopK f keys k sortStat bottom).on s = (.error e, t)) :
    (push sortStat).on s = (.error e, s) ∧ t = s ∨
      (∃ groups, e = .groupLimitExceeded groups s.groupLimit) ∧ t = s.restamped sortStat.width := by
  unfold splitTopK at failed
  rcases on_push_cases sortStat s with ⟨e', refused⟩ | ⟨entries, each, pushed⟩
  · rw [Action.on_bind_error refused] at failed
    cases failed
    exact .inl ⟨refused, rfl⟩
  · rw [Action.on_bind_ok pushed, Action.on_bind_ok (Action.on_get _),
      Action.on_bind_ok (on_pop_loaded full each)] at failed
    obtain ⟨limit, same⟩ := eq_of_on_split_eq_error failed
    exact .inr ⟨⟨_, limit⟩, same⟩

end Single

/-- The sessions there are. The stack and the registry of a session are lent out, so others may have been
put in their place. -/
inductive Reached : Session → Prop
  | new (id : Nat) (docs : List Document) (settings : Settings) : Reached (.new id docs settings)
  | after {s : Session} (before : Reached s) (o : Operation) : Reached (o.after s)
  | withStack {s : Session} (before : Reached s) {stack : StatStack} (built : stack.Reached) :
      Reached { s with stack := stack }
  | withRegistry {s : Session} (before : Reached s) (registry : MetricRegistry) :
      Reached { s with registry := registry }

/-- However columns and handles get out of step, the stack is one that pushes and pops lead to. -/
theorem stable_stack : Stable fun s => s.stack.Reached where
  load tokens width s built := by
    rw [on_load]
    cases s.entries.mapM (Entry.load tokens width) with
    | error e => exact built
    | ok entries => exact built
  unload width s built := by
    rw [on_unload]
    split <;> exact built
  occupy shape s built := .push built shape
  release s built := by
    rw [on_release]
    cases popped : s.stack.pop with
    | error e => exact built
    | ok result => exact .pop built popped
  split f keys choice s built := by
    rw [on_split]
    split <;> exact built
  keep keys s built := built
  assign groups s built := by
    rw [on_assign]
    split <;> exact built
  registerMetric name values s built := by
    rw [on_registerMetric]
    split <;> exact built
  change c s built := built
  breakAfter records s built := built

namespace Reached
variable {s : Session}

theorem regular (reached : s.Reached) : ∃ docs, s.Regular docs := by
  induction reached with
  | new id docs settings => exact ⟨docs, .new id docs settings⟩
  | after before o ih =>
    obtain ⟨docs, regular⟩ := ih
    exact ⟨docs, (Regular.stable docs).operation o regular⟩
  | withStack before built ih =>
    obtain ⟨docs, regular⟩ := ih
    exact ⟨docs, regular.docs, regular.slots, regular.metrics, regular.groups⟩
  | withRegistry before registry ih =>
    obtain ⟨docs, regular⟩ := ih
    exact ⟨docs, regular.docs, regular.slots, regular.metrics, regular.groups⟩

theorem full (reached : s.Reached) : ∀ e ∈ s.entries, e.slots.length = s.width := by
  obtain ⟨docs, regular⟩ := reached.regular
  exact regular.slots

theorem stack (reached : s.Reached) : s.stack.Reached := by
  induction reached with
  | new id docs settings => exact .new id
  | after before o ih => exact stable_stack.operation o ih
  | withStack before built ih => exact built
  | withRegistry before registry ih => exact ih

end Reached

/-- Pushing, loading and dropping values, assigning groups, registering metrics and splitting fail without a
trace, wherever they fail and however columns and handles are out of step. A ranking that is refused for the
group limit has pushed and popped its statistic: documents, groups, columns, slots and metrics are as before,
and only the numbers of later pushes differ. -/
theorem atomic_of_reached {s : Session} (reached : s.Reached) :
    (∀ stat, (push stat).Atomic s) ∧
    (∀ tokens width, (load tokens width).Atomic s) ∧
    (∀ width, (unload width).Atomic s) ∧
    (∀ groups, (assign groups).Atomic s) ∧
    (∀ name values, (registerMetric name values).Atomic s) ∧
    (∀ f keys, (splitExplode f keys).Atomic s) ∧
    ∀ f keys k sortStat bottom e t, (splitTopK f keys k sortStat bottom).on s = (.error e, t) →
      (push sortStat).on s = (.error e, s) ∧ t = s ∨
        (∃ groups, e = .groupLimitExceeded groups s.groupLimit) ∧ t = s.restamped sortStat.width := by
  refine ⟨s.atomic_push, s.atomic_load, s.atomic_unload, s.atomic_assign, s.atomic_registerMetric,
    s.atomic_splitExplode, ?_⟩
  intro f keys k sortStat bottom e t failed
  exact s.eq_of_on_splitTopK_eq_error reached.full failed

/-- Two documents in one group, in a session with a column that no handle stands for. One more group would
be too many. -/
def crowded : Session :=
  (Operation.load [.field "x"] 1).after
    (.new 0 [⟨[("f", .int 4), ("x", .int 9)]⟩, ⟨[("f", .int 5)]⟩] { Settings.standard with groupLimit := 2 })

theorem atomic_of_reached_of_crowded : crowded.Reached ∧ crowded.width = 1 ∧ crowded.stack.depth = 0 ∧
    ((load [.count, .operator .add] 1).on crowded).1 = .error .stackUnderflow ∧
    ((load [.count, .operator .add] 1).on crowded).2 = crowded ∧
    (splitTopK ⟨"f", .int⟩ (.ofList [(1, .root)]) 2 .count false).on crowded =
      (.error (.groupLimitExceeded 2 2), crowded.restamped 1) := by
  have reached : crowded.Reached := .after (.new _ _ _) _
  obtain ⟨-, loads, -, -, -, -, ranks⟩ := atomic_of_reached reached
  have tooFew : ((load [.count, .operator .add] 1).on crowded).1 = .error .stackUnderflow := by
    decide +kernel
  have pushed : ((push .count).on crowded).1 ≠ .error (.groupLimitExceeded 2 2) := by decide +kernel
  obtain ⟨u, failed⟩ := Action.exists_on_eq tooFew
  obtain ⟨t, refused⟩ : ∃ t, (splitTopK ⟨"f", .int⟩ (.ofList [(1, .root)]) 2 .count false).on crowded =
      (.error (.groupLimitExceeded 2 2), t) := Action.exists_on_eq rfl
  refine ⟨reached, by decide +kernel, by decide +kernel, tooFew, ?_, ?_⟩
  · rw [failed]
    exact loads _ _ _ _ failed
  · rcases ranks _ _ _ _ _ _ _ refused with ⟨early, -⟩ | ⟨-, same⟩
    · exact absurd (congrArg Prod.fst early) pushed
    · rw [refused, same]
      rfl

/-- What a pop comes to wherever columns and handles may be out of step. With nothing pushed it fails and
leaves the session as it is. Otherwise the innermost statistic is given up, with exactly its slots and its
width of columns where there are that many. Where there are fewer, the pop fails and its handle, live before,
is stale: so a pop is all or nothing exactly where the innermost statistic is no wider than the columns. -/
theorem atomic_pop_iff {s : Session} (reached : s.Reached) :
    (s.stack.widths = [] → pop.on s = (.error .stackUnderflow, s)) ∧
    (∀ w rest, s.stack.widths = w :: rest → ∃ ref stack,
      ref.slots.length = w ∧ s.stack.isValid ref = true ∧ stack.isValid ref = false ∧
      s.stack.slots = stack.slots ++ ref.slots.map (·.generation) ∧ stack.widths = rest ∧
      stack.id = s.stack.id ∧ stack.nextGeneration = s.stack.nextGeneration ∧
      (w ≤ s.width → ∃ entries, List.Forall₂ (Entry.Loaded w) entries s.entries ∧
        pop.on s = (.ok (), { s with entries := entries, width := s.width - w, stack := stack })) ∧
      (s.width < w → pop.on s = (.error .stackUnderflow, { s with stack := stack }))) ∧
    (pop.Atomic s ↔ ∀ w ∈ s.stack.widths.head?, w ≤ s.width) := by
  obtain ⟨refs, holds⟩ := reached.stack.holds
  cases refs with
  | nil =>
    have none : s.stack.widths = [] := holds.widths_eq
    have refused := on_pop_of_error holds.pop_nil
    refine ⟨fun _ => refused, ?_, ?_⟩
    · intro w rest some
      rw [none] at some
      cases some
    · rw [none]
      exact iff_of_true (.of_error refused) fun _ h => nomatch h
  | cons ref refs =>
    obtain ⟨stack, popped, below, slots, id, widths, generation⟩ := holds.pop_eq
    have innermost : s.stack.widths = ref.slots.length :: refs.map (·.slots.length) := holds.widths_eq
    have stale := holds.stale_of_pop below
    refine ⟨?_, ?_, ?_⟩
    · intro none
      rw [innermost] at none
      cases none
    · intro w rest same
      rw [innermost] at same
      obtain ⟨rfl, rfl⟩ := List.cons.inj same
      refine ⟨ref, stack, rfl, holds.isValid_of_mem List.mem_cons_self, stale, slots, ?_, id, generation,
        ?_, on_pop_of_few popped⟩
      · rw [widths, innermost]
        rfl
      · intro enough
        refine ⟨_, ?_, on_pop popped enough⟩
        rw [List.forall₂_map_left_iff, List.forall₂_same]
        intro e member
        exact Entry.loaded_dropped (reached.full e member) enough
    · rw [innermost, List.head?_cons]
      constructor
      · intro atomic w same
        obtain rfl := Option.mem_some_iff.1 same
        refine Nat.le_of_not_lt ?_
        intro few
        -- An unchanged stack would still hold the handle that the pop has given up.
        have kept : stack = s.stack := congrArg Session.stack (atomic _ _ (on_pop_of_few popped few))
        rw [kept, holds.isValid_of_mem List.mem_cons_self] at stale
        cases stale
      · intro enough
        exact .of_ok (on_pop popped (enough _ rfl))

/-- A session in which a handle was taken without values. -/
def unbacked : Session := (Operation.occupy .single).after (.new 0 [⟨[("x", .int 1)]⟩] .standard)

theorem atomic_pop_iff_of_unbacked : unbacked.Reached ∧ unbacked.stack.widths = [1] ∧ unbacked.width = 0 ∧
    unbacked.stack.isValid (.single ⟨0, 0, 1⟩) = true ∧
    (∃ stack, pop.on unbacked = (.error .stackUnderflow, { unbacked with stack := stack }) ∧
      stack.isValid (.single ⟨0, 0, 1⟩) = false) ∧
    ¬pop.Atomic unbacked := by
  have reached : unbacked.Reached := .after (.new _ _ _) _
  obtain ⟨-, cases, whole⟩ := atomic_pop_iff reached
  obtain ⟨ref, stack, length, -, -, slots, -, -, -, -, few⟩ := cases 1 [] rfl
  have failed := few Nat.one_pos
  have empty : stack.slots = [] := by
    have lengths : 1 = (stack.slots ++ ref.slots.map (·.generation)).length := congrArg List.length slots
    rw [List.length_append, List.length_map, length] at lengths
    exact List.length_eq_zero_iff.1 (by omega)
  refine ⟨reached, rfl, rfl, rfl, ⟨stack, failed, ?_⟩, ?_⟩
  · rw [StatStack.isValid, StatStack.slotIsLive, empty]
    exact Bool.and_false _
  · rw [whole]
    exact fun enough => absurd (enough 1 rfl) (by decide)

end Session
end Rollup
