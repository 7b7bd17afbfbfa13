import Rollup.Proofs.Liveness.StatStack
import Rollup.Proofs.Session.Totals

namespace Rollup

theorem Entry.loaded_of_load {tokens : List Token} {width : Nat} {e e' : Entry}
    (h : e.load tokens width = .ok e') : e.Loaded width e' := by
  unfold load at h
  rw [Outcome.bind_eq_ok_iff] at h
  obtain ⟨values, -, h⟩ := h
  by_cases fits : values.length = width
  · rw [if_pos fits] at h
    cases h
    exact ⟨values, fits, rfl⟩
  · rw [if_neg fits] at h
    cases h

/-- What lies on top of the entries does not matter to a handle below it. -/
theorem StatRef.total_of_loaded {n width : Nat} {es es' : List Entry}
    (each : List.Forall₂ (Entry.Loaded n) es es') (full : ∀ e ∈ es, e.slots.length = width) {ref : StatRef}
    (below : ref.Below width) : ref.total (es'.map (·.toReading)) = ref.total (es.map (·.toReading)) := by
  have sums {depth : Nat} (within : depth < width) :
      Reading.sumAt depth (es'.map (·.toReading)) = Reading.sumAt depth (es.map (·.toReading)) := by
    rw [Reading.sumAt, Reading.sumAt, List.map_map, List.map_map]
    refine congrArg sum ?_
    rw [eq_comm, ← List.forall₂_eq_eq_eq, List.forall₂_map_left_iff, List.forall₂_map_right_iff]
    refine ((List.forall₂_and_left _ _).2 ⟨full, each⟩).imp ?_
    intro e e' h
    obtain ⟨length, values, -, rfl⟩ := h
    have inside : depth < e.slots.length := length ▸ within
    show e.slots.getD depth 0 = (e.slots ++ values).getD depth 0
    rw [List.getD_eq_getElem?_getD, List.getD_eq_getElem?_getD, List.getElem?_append_left inside]
  cases ref with
  | single slot => exact sums below
  | aggregate op left right => exact congrArg₂ op.combine (sums below.1) (sums below.2)

/-- A reading with `n` more values on top. -/
structure Reading.Raised (n : Nat) (r r' : Reading) : Prop where
  doc : r'.doc = r.doc
  metrics : r'.metrics = r.metrics
  slots : ∃ more : List Int64, more.length = n ∧ r'.slots = r.slots ++ more

theorem Reading.Raised.eq {r r' : Reading} (h : r.Raised 0 r') : r' = r := by
  obtain ⟨more, length, slots⟩ := h.slots
  rw [List.length_eq_zero_iff.1 length, List.append_nil] at slots
  cases r
  cases r'
  cases h.doc
  cases h.metrics
  cases slots
  rfl

theorem Reading.Raised.trans {m n : Nat} {r r' r'' : Reading} (first : r.Raised m r')
    (second : r'.Raised n r'') : r.Raised (n + m) r'' where
  doc := second.doc.trans first.doc
  metrics := second.metrics.trans first.metrics
  slots := by
    obtain ⟨lower, lowerLength, lowerSlots⟩ := first.slots
    obtain ⟨upper, upperLength, upperSlots⟩ := second.slots
    refine ⟨lower ++ upper, ?_, ?_⟩
    · rw [List.length_append, lowerLength, upperLength, Nat.add_comm]
    · rw [upperSlots, lowerSlots, List.append_assoc]

/-- A stack with statistics of the given widths on top, the innermost first, and later numbers. -/
structure StatStack.Raised (pushed : List Nat) (s t : StatStack) : Prop where
  id : t.id = s.id
  widths : t.widths = pushed ++ s.widths
  nextGeneration : s.nextGeneration ≤ t.nextGeneration
  slots : ∃ more : List Nat, more.length = pushed.sum ∧ t.slots = s.slots ++ more

namespace StatStack
variable {widths : List Nat} {s t u : StatStack}

theorem Raised.refl (s : StatStack) : s.Raised [] s :=
  ⟨rfl, rfl, Nat.le_refl _, [], rfl, (List.append_nil _).symm⟩

theorem Raised.trans {upper : List Nat} (first : s.Raised widths t) (second : t.Raised upper u) :
    s.Raised (upper ++ widths) u where
  id := second.id.trans first.id
  widths := by rw [second.widths, first.widths, List.append_assoc]
  nextGeneration := Nat.le_trans first.nextGeneration second.nextGeneration
  slots := by
    obtain ⟨low, lowLength, lowSlots⟩ := first.slots
    obtain ⟨high, highLength, highSlots⟩ := second.slots
    refine ⟨low ++ high, ?_, ?_⟩
    · rw [List.length_append, lowLength, highLength, List.sum_append, Nat.add_comm]
    · rw [highSlots, lowSlots, List.append_assoc]

theorem raised_push (s : StatStack) (shape : Shape) : s.Raised [shape.width] (s.push shape).2 where
  id := s.id_push shape
  widths := s.widths_push shape
  nextGeneration := by
    rw [s.nextGeneration_push]
    exact Nat.le_add_right _ _
  slots := by
    refine ⟨(s.push shape).1.slots.map (·.generation), ?_, s.slots_push shape⟩
    rw [List.length_map, s.length_slots_ref_push, List.sum_singleton]

theorem Raised.depth (h : s.Raised widths t) : t.depth = s.depth + widths.sum := by
  obtain ⟨more, length, slots⟩ := h.slots
  rw [StatStack.depth, slots, List.length_append, length]
  rfl

theorem Raised.size (h : s.Raised widths t) : t.size = widths.length + s.size := by
  rw [StatStack.size, h.widths, List.length_append]
  rfl

/-- With nothing on top only the numbers of later pushes differ. -/
theorem Raised.eq_advanced (h : s.Raised [] t) : ∃ n, t = s.advanced n := by
  obtain ⟨more, length, slots⟩ := h.slots
  rw [List.length_eq_zero_iff.1 length, List.append_nil] at slots
  refine ⟨t.nextGeneration - s.nextGeneration, ?_⟩
  have later := h.nextGeneration
  have sum : s.nextGeneration + (t.nextGeneration - s.nextGeneration) = t.nextGeneration := by omega
  have id := h.id
  have widths : t.widths = s.widths := h.widths
  rw [advanced, sum]
  cases t
  cases id
  cases widths
  cases slots
  rfl

theorem Raised.pop {w : Nat} (h : s.Raised (w :: widths) t) :
    ∃ u, t.pop = .ok (w, u) ∧ s.Raised widths u := by
  obtain ⟨more, length, slots⟩ := h.slots
  rw [List.sum_cons] at length
  refine ⟨{ t with widths := widths ++ s.widths, slots := t.slots.take (t.depth - w) }, ?_, ?_⟩
  · rw [StatStack.pop, h.widths]
    rfl
  · refine ⟨h.id, rfl, h.nextGeneration, more.take widths.sum, ?_, ?_⟩
    · rw [List.length_take, length]
      omega
    · have depth := h.depth
      rw [List.sum_cons] at depth
      have kept : t.depth - w = s.slots.length + widths.sum := by
        have bottom : s.depth = s.slots.length := rfl
        omega
      show t.slots.take (t.depth - w) = _
      rw [kept, slots, List.take_length_add_append]

end StatStack

namespace Session

/-- The entries with the values of a statistic on top, unless it fails to compile or to run. -/
def evaluated (stat : Stat) (s : Session) : Except Fault (List Entry) :=
  stat.compile s.scope >>= fun tokens => s.entries.mapM (Entry.load tokens stat.width)

theorem loaded_of_evaluated {stat : Stat} {s : Session} {entries : List Entry}
    (h : s.evaluated stat = .ok entries) : List.Forall₂ (Entry.Loaded stat.width) s.entries entries := by
  obtain ⟨tokens, -, each⟩ := Outcome.bind_eq_ok_iff.1 h
  exact (Outcome.mapM_eq_ok_iff.1 each).imp fun _ _ => Entry.loaded_of_load

theorem on_push_eq (stat : Stat) (s : Session) :
    (push stat).on s = match s.evaluated stat with
      | .error e => (.error e, s)
      | .ok entries => (.ok (s.stack.push stat.shape).1, s.loaded stat entries) := by
  unfold evaluated
  cases compiled : stat.compile s.scope with
  | error e => exact on_push_of_error compiled
  | ok tokens =>
    have run : (Except.ok tokens >>= fun tokens => s.entries.mapM (Entry.load tokens stat.width)) =
        s.entries.mapM (Entry.load tokens stat.width) := rfl
    rw [run]
    cases each : s.entries.mapM (Entry.load tokens stat.width) with
    | error e => simp only [push, load, Action.on_bind, Action.on_get, Action.on_ofExcept, compiled, each]
    | ok entries =>
      simp only [push, load, Action.on_bind, Action.on_get, Action.on_ofExcept, Action.on_set, compiled,
        each, on_occupy]
      rfl

/-- A push fails without a trace, or every entry gets as many values as the statistic is wide. -/
theorem on_push_cases (stat : Stat) (s : Session) :
    (∃ e, (push stat).on s = (.error e, s)) ∨
      ∃ entries, List.Forall₂ (Entry.Loaded stat.width) s.entries entries ∧
        (push stat).on s = (.ok (s.stack.push stat.shape).1, s.loaded stat entries) := by
  rw [on_push_eq]
  cases evaluated : s.evaluated stat with
  | error e => exact .inl ⟨e, rfl⟩
  | ok entries => exact .inr ⟨entries, loaded_of_evaluated evaluated, rfl⟩

/-- A push that succeeds returns the handle of its slots and loads every entry. -/
theorem eq_loaded_of_on_push {stat : Stat} {s t : Session} {ref : StatRef}
    (h : (push stat).on s = (.ok ref, t)) :
    ref = (s.stack.push stat.shape).1 ∧
      ∃ entries, List.Forall₂ (Entry.Loaded stat.width) s.entries entries ∧ t = s.loaded stat entries := by
  rcases on_push_cases stat s with ⟨e, failed⟩ | ⟨entries, each, pushed⟩
  · rw [failed] at h
    cases h
  · rw [pushed] at h
    cases h
    exact ⟨rfl, entries, each, rfl⟩

theorem InStep.length_readings {s : Session} (inStep : s.InStep) :
    ∀ r ∈ s.readings, r.slots.length = s.width := by
  intro r member
  obtain ⟨e, eMember, rfl⟩ := List.mem_map.1 member
  exact inStep.slots e eMember

/-- A session with statistics of the given widths on top of another, the innermost first; the groups may
differ. -/
structure Raised (widths : List Nat) (s t : Session) : Prop where
  readings : List.Forall₂ (Reading.Raised widths.sum) s.readings t.readings
  width : t.width = s.width + widths.sum
  stack : s.stack.Raised widths t.stack
  groupCount : 0 < s.groupCount → 0 < t.groupCount
  groupLimit : t.groupLimit = s.groupLimit
  failAfter : t.failAfter = s.failAfter

namespace Raised
variable {widths : List Nat} {s t u : Session}

theorem refl (s : Session) : s.Raised [] s where
  readings := List.forall₂_same.2 fun _ _ => ⟨rfl, rfl, [], rfl, (List.append_nil _).symm⟩
  width := rfl
  stack := .refl _
  groupCount := id
  groupLimit := rfl
  failAfter := rfl

theorem trans {upper : List Nat} (first : s.Raised widths t) (second : t.Raised upper u) :
    s.Raised (upper ++ widths) u where
  readings := by
    rw [List.sum_append]
    exact forall₂_comp (fun _ _ _ lower upper => lower.trans upper) first.readings second.readings
  width := by
    rw [second.width, first.width, List.sum_append]
    omega
  stack := first.stack.trans second.stack
  groupCount := second.groupCount ∘ first.groupCount
  groupLimit := second.groupLimit.trans first.groupLimit
  failAfter := second.failAfter.trans first.failAfter

theorem restamped (s : Session) (n : Nat) : s.Raised [] (s.restamped n) where
  readings := (refl s).readings
  width := rfl
  stack := ⟨rfl, rfl, Nat.le_add_right _ _, [], rfl, (List.append_nil _).symm⟩
  groupCount := id
  groupLimit := rfl
  failAfter := rfl

theorem readings_eq (h : s.Raised [] t) : t.readings = s.readings := by
  have same : List.Forall₂ (fun r r' => r' = r) s.readings t.readings :=
    h.readings.imp fun _ _ => Reading.Raised.eq
  rw [← List.forall₂_eq_eq_eq]
  exact same.flip

theorem inStep (h : s.Raised widths t) (inStep : s.InStep) : t.InStep where
  width := by rw [h.width, h.stack.depth, inStep.width]
  slots := by
    have full : List.Forall₂ (fun r' _ => r'.slots.length = t.width ∧ True) t.readings s.readings := by
      refine ((List.forall₂_and_left _ _).2 ⟨inStep.length_readings, h.readings⟩).flip.imp ?_
      intro r' r both
      obtain ⟨length, raised⟩ := both
      obtain ⟨more, moreLength, slots⟩ := raised.slots
      rw [slots, List.length_append, length, moreLength, h.width]
      exact ⟨rfl, trivial⟩
    intro e member
    exact ((List.forall₂_and_left _ _).1 full).1 e.toReading (List.mem_map_of_mem member)

end Raised

theorem raised_loaded {s : Session} {stat : Stat} {entries : List Entry}
    (each : List.Forall₂ (Entry.Loaded stat.width) s.entries entries) :
    s.Raised [stat.width] (s.loaded stat entries) where
  readings := by
    refine List.rel_map ?_ each
    intro e e' h
    obtain ⟨values, length, rfl⟩ := h
    exact ⟨rfl, rfl, values, length.trans List.sum_singleton.symm, rfl⟩
  width := congrArg (s.width + ·) List.sum_singleton.symm
  stack := s.stack.raised_push stat.shape
  groupCount := id
  groupLimit := rfl
  failAfter := rfl

/-- The innermost statistic on top of a session can be popped, which leaves the others on top of it. -/
theorem Raised.on_pop {w : Nat} {widths : List Nat} {s t : Session} (h : s.Raised (w :: widths) t)
    (inStep : s.InStep) : ∃ u, pop.on t = (.ok (), u) ∧ s.Raised widths u := by
  obtain ⟨stack, popped, lower⟩ := h.stack.pop
  have width := h.width
  rw [List.sum_cons] at width
  have enough : w ≤ t.width := by omega
  have kept : t.width - w = s.width + widths.sum := by omega
  refine ⟨_, Session.on_pop popped enough, ?_, kept, lower, h.groupCount, h.groupLimit,
    h.failAfter⟩
  show List.Forall₂ _ s.readings ((t.entries.map (Entry.dropped (t.width - w))).map (·.toReading))
  have dropped : (t.entries.map (Entry.dropped (t.width - w))).map (·.toReading) =
      t.readings.map fun r => { r with slots := r.slots.take (t.width - w) } := by
    rw [Session.readings, List.map_map, List.map_map]
    rfl
  rw [dropped, List.forall₂_map_right_iff]
  refine ((List.forall₂_and_left _ _).2 ⟨inStep.length_readings, h.readings⟩).imp ?_
  intro r r' both
  obtain ⟨length, raised⟩ := both
  obtain ⟨more, moreLength, slots⟩ := raised.slots
  rw [List.sum_cons] at moreLength
  refine ⟨raised.doc, raised.metrics, more.take widths.sum, ?_, ?_⟩
  · rw [List.length_take]
    omega
  · show r'.slots.take (t.width - w) = _
    rw [kept, slots, ← length, List.take_length_add_append]

end Session
end Rollup
