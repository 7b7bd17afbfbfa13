import Rollup.Proofs.Liveness.Registration
import Rollup.Proofs.Query.GroupBy
import Rollup.Proofs.Query.Neutrality

namespace Rollup

def Entry.withMetric (name : String) (e : Entry) (v : Int64) : Entry :=
  { e with metrics := (name, v) :: e.metrics }

namespace Session

/-- Sessions with the same documents and the same values of what is pushed. -/
structure Undisturbed (s t : Session) : Prop where
  entries : List.Forall₂ (fun e e' : Entry => e'.doc = e.doc ∧ e'.slots = e.slots) s.entries t.entries
  width : t.width = s.width
  stack : ∃ n, t.stack = s.stack.advanced n
  groupCount : 0 < s.groupCount → 0 < t.groupCount

namespace Undisturbed
variable {s t : Session}

theorem refl (s : Session) : s.Undisturbed s :=
  ⟨List.forall₂_same.2 fun _ _ => ⟨rfl, rfl⟩, rfl, ⟨0, rfl⟩, id⟩

theorem of_raised (h : s.Raised [] t) : s.Undisturbed t where
  entries := by
    refine (List.forall₂_map_left_iff.1 (List.forall₂_map_right_iff.1 h.readings)).imp ?_
    intro e e' raised
    have same : e'.toReading = e.toReading := raised.eq
    rw [same]
    exact ⟨rfl, rfl⟩
  width := h.width
  stack := h.stack.eq_advanced
  groupCount := h.groupCount

theorem inStep (h : s.Undisturbed t) (inStep : s.InStep) : t.InStep where
  width := by
    obtain ⟨n, stack⟩ := h.stack
    rw [h.width, stack]
    exact inStep.width
  slots := by
    have full : List.Forall₂ (fun e' (_ : Entry) => e'.slots.length = t.width ∧ True)
        t.entries s.entries := by
      refine ((List.forall₂_and_left _ _).2 ⟨inStep.slots, h.entries⟩).flip.imp ?_
      intro e' e both
      obtain ⟨length, -, slots⟩ := both
      exact ⟨by rw [slots, length, h.width], trivial⟩
    exact ((List.forall₂_and_left _ _).1 full).1

end Undisturbed

theorem forall₂_zipWith {β : Type} {P : Entry → Entry → Prop} {f : Entry → β → Entry} {es : List Entry}
    {bs : List β} (each : ∀ e, ∀ b ∈ bs, P e (f e b)) (length : bs.length = es.length) :
    List.Forall₂ P es (es.zipWith f bs) := by
  induction es generalizing bs with
  | nil => exact .nil
  | cons e rest ih =>
    cases bs with
    | nil => cases length
    | cons b others =>
      have later : ∀ e, ∀ b' ∈ others, P e (f e b') :=
        fun e b' member => each e b' (List.mem_cons_of_mem b member)
      exact .cons (each e b List.mem_cons_self) (ih later (Nat.succ.inj length))

theorem forall₂_zipWith_right {β : Type} {R : Entry → β → Prop} {f : Entry → β → Entry}
    (each : ∀ e b, R (f e b) b) {es : List Entry} {bs : List β} (length : bs.length = es.length) :
    List.Forall₂ R (es.zipWith f bs) bs := by
  induction es generalizing bs with
  | nil =>
    rw [List.length_eq_zero_iff.1 length]
    exact .nil
  | cons e rest ih =>
    cases bs with
    | nil => exact .nil
    | cons b others => exact .cons (each e b) (ih (Nat.succ.inj length))

/-- The session after an assignment with a group for each document. -/
def assigned (groups : List GroupId) (s : Session) : Session :=
  { s with
    entries := s.entries.zipWith (fun e g => { e with group := g }) groups
    groupCount := groups.foldl Nat.max 0 + 1 }

theorem on_assign (groups : List GroupId) (s : Session) :
    (assign groups).on s =
      if groups.length = s.entries.length then (.ok (), s.assigned groups)
      else (.error (.session (.assignments s.entries.length groups.length)), s) := by
  unfold assign
  rw [Action.on_bind_ok (Action.on_get s)]
  by_cases fits : groups.length = s.entries.length
  · rw [if_pos fits, if_pos fits]
    rfl
  · rw [if_neg fits, if_neg fits]
    rfl

theorem undisturbed_assign (groups : List GroupId) (s : Session) :
    s.Undisturbed ((assign groups).on s).2 := by
  rw [on_assign]
  by_cases fits : groups.length = s.entries.length
  · rw [if_pos fits]
    exact ⟨forall₂_zipWith (fun _ _ _ => ⟨rfl, rfl⟩) fits, rfl, ⟨0, rfl⟩, fun _ => Nat.succ_pos _⟩
  · rw [if_neg fits]
    exact .refl s

/-- The session after a registration that succeeds. -/
def withMetric (name : String) (values : List Int64) (s : Session) : Session :=
  { s with
    entries := s.entries.zipWith (Entry.withMetric name) values
    registry := s.registry.changed (.register name) }

theorem on_registerMetric (name : String) (values : List Int64) (s : Session) :
    (registerMetric name values).on s =
      if values.length = s.entries.length then
        (.ok (s.registry.register name).1, s.withMetric name values)
      else (.error (.session (.metricValues name values.length s.entries.length)), s) := by
  unfold registerMetric
  rw [Action.on_bind_ok (Action.on_get s)]
  by_cases fits : values.length = s.entries.length
  · rw [if_pos fits, if_pos fits]
    rfl
  · rw [if_neg fits, if_neg fits]
    rfl

theorem undisturbed_registerMetric (name : String) (values : List Int64) (s : Session) :
    s.Undisturbed ((registerMetric name values).on s).2 := by
  rw [on_registerMetric]
  by_cases fits : values.length = s.entries.length
  · rw [if_pos fits]
    exact ⟨forall₂_zipWith (fun _ _ _ => ⟨rfl, rfl⟩) fits, rfl, ⟨0, rfl⟩, id⟩
  · rw [if_neg fits]
    exact .refl s

/-- What can be asked of a session. -/
inductive Call where
  | push (stat : Stat) (built : stat.Built)
  | pop
  | assign (groups : List GroupId)
  | registerMetric (name : String) (values : List Int64)
  | register (name : String)
  | invalidate (name : String)
  | invalidateAll
  | breakAfter (records : Option Nat)
  | keep (keys : KeyMap)
  | splitTopK (f : Field) (keys : KeyMap) (k : Nat) (sortStat : Stat) (bottom : Bool)
  | splitExplode (f : Field) (keys : KeyMap)
  | stream (fields : List Field)
  | groupStats (ref : StatRef)
  | regroup (g : Grouping) (keys : KeyMap)
  | collect (g : Grouping) (keys : KeyMap) (refs : List StatRef) (deadline : Deadline)
  | execute (q : Query) (settings : Settings)

/-- The session after a call, whether the call succeeds or fails. Streams and totals are only read. -/
def Call.after (s : Session) : Call → Session
  | push stat _ => ((Session.push stat).on s).2
  | pop => (Session.pop.on s).2
  | assign groups => ((Session.assign groups).on s).2
  | registerMetric name values => ((Session.registerMetric name values).on s).2
  | register name => { s with registry := (s.registry.register name).2 }
  | invalidate name => { s with registry := (s.registry.invalidate name).2 }
  | invalidateAll => { s with registry := s.registry.invalidateAll }
  | breakAfter records => { s with failAfter := records }
  | keep keys => ((Session.keep keys).on s).2
  | splitTopK f keys k sortStat bottom => ((Session.splitTopK f keys k sortStat bottom).on s).2
  | splitExplode f keys => ((Session.splitExplode f keys).on s).2
  | stream _ => s
  | groupStats _ => s
  | regroup g keys => ((g.regroup keys).on s).2
  | collect g keys refs deadline => ((g.collect keys refs deadline).on s).2
  | execute q settings => ((q.execute settings).on s).2

/-- A push that succeeded: the statistic, the session it was pushed onto, and the handle it returned. -/
structure Issue where
  stat : Stat
  before : Session
  ref : StatRef

namespace Issue

/-- What the statistic was pushed for: the documents as they were then, of which those count that are in
a group by now. -/
def members (p : Issue) (groups : List GroupId) (g : GroupId) : List Reading :=
  ((p.before.readings.zip groups).filter (·.2 = g)).map (·.1)

/-- An entry has in each live slot of the push what the statistic came to for its document. -/
def Denotes (p : Issue) (stack : StatStack) (e : Entry) (r : Reading) : Prop :=
  e.doc = r.doc ∧ ∀ (i : Nat) (slot : SlotRef), p.ref.slots[i]? = some slot →
    stack.slotIsLive slot = true → e.slots[slot.depth]? = (p.stat.slotValues r)[i]?

end Issue

/-- A session and all pushes onto it that succeeded, the latest first. -/
structure Log where
  session : Session
  issued : List Issue

namespace Log

def opened (id : Nat) (docs : List Document) (settings : Settings) : Log := ⟨.new id docs settings, []⟩

def step (log : Log) (c : Call) : Log where
  session := c.after log.session
  issued := match c with
    | .push stat _ =>
      match ((push stat).on log.session).1 with
      | .ok ref => ⟨stat, log.session, ref⟩ :: log.issued
      | .error _ => log.issued
    | _ => log.issued

def run (log : Log) (calls : List Call) : Log := calls.foldl step log

theorem run_cons (log : Log) (c : Call) (rest : List Call) :
    log.run (c :: rest) = (log.step c).run rest := rfl

theorem issued_step (log : Log) (c : Call) : log.issued ⊆ (log.step c).issued := by
  cases c with
  | push stat built =>
    rw [step]
    cases ((Session.push stat).on log.session).1 with
    | ok ref => exact List.subset_cons_self _ _
    | error e => exact List.Subset.refl _
  | _ => exact List.Subset.refl _

/-- A push stays on record. -/
theorem issued_run (log : Log) (calls : List Call) : log.issued ⊆ (log.run calls).issued := by
  induction calls generalizing log with
  | nil => exact List.Subset.refl _
  | cons c rest ih => exact List.Subset.trans (log.issued_step c) (ih (log.step c))

/-- Every live slot was returned by a push and holds, for every document, what was pushed. -/
structure Sound (log : Log) : Prop where
  inStep : log.session.InStep
  holds : ∃ refs, log.session.stack.Holds refs
  groupCount : 0 < log.session.groupCount
  taken : ∀ p ∈ log.issued, p.ref = (p.before.stack.push p.stat.shape).1
  older : ∀ p ∈ log.issued, ∀ slot ∈ p.ref.slots, slot.generation < log.session.stack.nextGeneration
  issued : ∀ slot, log.session.stack.slotIsLive slot = true → ∃ p ∈ log.issued, slot ∈ p.ref.slots
  values : ∀ p ∈ log.issued,
    List.Forall₂ (p.Denotes log.session.stack) log.session.entries p.before.readings

namespace Sound

theorem opened (id : Nat) (docs : List Document) (settings : Settings) :
    (Log.opened id docs settings).Sound where
  inStep := (fresh_new id docs settings).inStep
  holds := ⟨[], .new id⟩
  groupCount := Nat.two_pos
  taken := List.forall_mem_nil _
  older := List.forall_mem_nil _
  issued slot live := by
    obtain ⟨ref, member, -⟩ := ((StatStack.Holds.new id).slotIsLive_iff slot).1 live
    cases member
  values := List.forall_mem_nil _

variable {s t : Session} {issued : List Issue}

theorem undisturbed (sound : Sound ⟨s, issued⟩) (h : s.Undisturbed t) : Sound ⟨t, issued⟩ := by
  obtain ⟨n, stack⟩ := h.stack
  refine ⟨h.inStep sound.inStep, ?_, h.groupCount sound.groupCount, sound.taken, ?_, ?_, ?_⟩
  · obtain ⟨refs, holds⟩ := sound.holds
    exact ⟨refs, stack ▸ holds.advanced n⟩
  · intro p member slot inside
    rw [stack]
    exact Nat.lt_of_lt_of_le (sound.older p member slot inside) (Nat.le_add_right _ n)
  · intro slot live
    rw [stack] at live
    exact sound.issued slot live
  · intro p member
    refine forall₂_comp ?_ h.entries.flip (sound.values p member)
    intro e' e r same here
    obtain ⟨doc, slots⟩ := same
    refine ⟨doc.trans here.1, ?_⟩
    intro i slot place live
    rw [stack] at live
    rw [slots]
    exact here.2 i slot place live

/-- A push puts the values of its statistic on top of the others. -/
theorem pushed (sound : Sound ⟨s, issued⟩) (stat : Stat) :
    Sound ⟨s.pushed stat, ⟨stat, s, (s.stack.push stat.shape).1⟩ :: issued⟩ := by
  have next : (s.pushed stat).stack.nextGeneration = s.stack.nextGeneration + stat.width :=
    s.stack.nextGeneration_push stat.shape
  refine ⟨sound.inStep.pushed stat, ?_, sound.groupCount, ?_, ?_, ?_, ?_⟩
  · obtain ⟨refs, holds⟩ := sound.holds
    exact ⟨_, holds.pushed stat.shape⟩
  · rw [List.forall_mem_cons]
    exact ⟨rfl, sound.taken⟩
  · rw [List.forall_mem_cons]
    refine ⟨?_, ?_⟩
    · intro slot inside
      obtain ⟨-, i, within, -, generation⟩ := (s.stack.mem_slots_ref_push_iff stat.shape slot).1 inside
      rw [next, generation]
      exact Nat.add_lt_add_left within _
    · intro p member slot inside
      rw [next]
      exact Nat.lt_of_lt_of_le (sound.older p member slot inside) (Nat.le_add_right _ _)
  · intro slot live
    rw [List.exists_mem_cons_iff]
    rcases (s.stack.slotIsLive_push_iff stat.shape slot).1 live with new | old
    · exact .inl new
    · exact .inr (sound.issued slot old)
  · rw [List.forall_mem_cons]
    refine ⟨?_, ?_⟩
    · refine List.forall₂_map_left_iff.2 (List.forall₂_map_right_iff.2 (List.forall₂_same.2 ?_))
      intro e member
      refine ⟨rfl, ?_⟩
      intro i slot place _
      have full : s.stack.depth = e.slots.length := (sound.inStep.length_slots member).symm
      rw [StatStack.depth_of_getElem?_slots place, full]
      show (e.slots ++ stat.slotValues e.toReading)[_]? = _
      rw [List.getElem?_append_right (Nat.le_add_right _ _), Nat.add_sub_cancel_left]
    · intro p member
      refine List.forall₂_map_left_iff.2 (((List.forall₂_and_left _ _).2
        ⟨fun e here => sound.inStep.length_slots here, sound.values p member⟩).imp ?_)
      intro e r both
      obtain ⟨full, doc, here⟩ := both
      refine ⟨doc, ?_⟩
      intro i slot place live
      -- A slot of an earlier push has an earlier number, so it is not one of the new ones.
      have old : s.stack.slotIsLive slot = true := by
        rcases (s.stack.slotIsLive_push_iff stat.shape slot).1 live with new | old
        · obtain ⟨-, j, -, -, generation⟩ := (s.stack.mem_slots_ref_push_iff stat.shape slot).1 new
          have before : slot.generation < s.stack.nextGeneration :=
            sound.older p member slot (List.mem_of_getElem? place)
          omega
        · exact old
      have below : slot.depth < e.slots.length := by
        rw [full]
        exact (List.getElem?_eq_some_iff.1 ((s.stack.slotIsLive_iff slot).1 old).2).1
      show (e.slots ++ stat.slotValues e.toReading)[slot.depth]? = _
      rw [List.getElem?_append_left below]
      exact here i slot place old

/-- A pop takes away the innermost statistic with its values, and no other. -/
theorem popped (sound : Sound ⟨s, issued⟩) : Sound ⟨(Session.pop.on s).2, issued⟩ := by
  obtain ⟨refs, holds⟩ : ∃ refs, s.stack.Holds refs := sound.holds
  cases refs with
  | nil =>
    have failed : Session.pop.on s = (.error .stackUnderflow, s) := by
      simp only [Session.pop, release, Action.on_bind, Action.on_get, Action.on_ofExcept, holds.pop_nil]
    rw [failed]
    exact sound
  | cons ref rest =>
    obtain ⟨stack, popped, below, slots, id, -, generation⟩ := holds.pop_eq
    have depth : s.stack.depth = stack.depth + ref.slots.length := by
      rw [StatStack.depth, slots, List.length_append, List.length_map]
      rfl
    have width : s.width = stack.depth + ref.slots.length := sound.inStep.width.trans depth
    have kept : s.width - ref.slots.length = stack.depth := by omega
    have stays (slot : SlotRef) (live : stack.slotIsLive slot = true) :
        s.stack.slotIsLive slot = true ∧ slot.depth < stack.depth := by
      obtain ⟨owner, place⟩ := (stack.slotIsLive_iff slot).1 live
      have inside : slot.depth < stack.slots.length := (List.getElem?_eq_some_iff.1 place).1
      refine ⟨(s.stack.slotIsLive_iff slot).2 ⟨owner.trans id, ?_⟩, inside⟩
      rw [slots, List.getElem?_append_left inside, place]
    rw [on_pop popped (by omega), kept]
    refine ⟨⟨rfl, ?_⟩, ⟨rest, below⟩, sound.groupCount, sound.taken, ?_, ?_, ?_⟩
    · intro e' member'
      obtain ⟨e, member, rfl⟩ := List.mem_map.1 member'
      have full : e.slots.length = s.width := sound.inStep.slots e member
      show (e.slots.take stack.depth).length = stack.depth
      rw [List.length_take]
      omega
    · intro p member slot inside
      show slot.generation < stack.nextGeneration
      rw [generation]
      exact sound.older p member slot inside
    · intro slot live
      exact sound.issued slot (stays slot live).1
    · intro p member
      refine List.forall₂_map_left_iff.2 ((sound.values p member).imp ?_)
      intro e r here
      refine ⟨here.1, ?_⟩
      intro i slot place live
      obtain ⟨old, inside⟩ := stays slot live
      show (e.slots.take stack.depth)[slot.depth]? = _
      rw [List.getElem?_take_of_lt inside]
      exact here.2 i slot place old

theorem step {log : Log} (sound : log.Sound) (c : Call) : (log.step c).Sound := by
  obtain ⟨s, issued⟩ := log
  have calm (t : Session) (h : s.Undisturbed t) : Sound ⟨t, issued⟩ := sound.undisturbed h
  have kept {α : Type} {x : Action Session α} (keeps : Keeps x) : Sound ⟨(x.on s).2, issued⟩ :=
    calm _ (.of_raised (keeps s sound.inStep))
  cases c with
  | push stat built =>
    cases compiled : stat.compile s.scope with
    | error e =>
      simp only [Log.step, Call.after, on_push_of_error compiled]
      exact sound
    | ok tokens =>
      simp only [Log.step, Call.after, on_push sound.inStep built compiled]
      exact sound.pushed stat
  | pop => exact sound.popped
  | assign groups => exact calm _ (undisturbed_assign groups s)
  | registerMetric name values => exact calm _ (undisturbed_registerMetric name values s)
  | register name => exact calm _ ⟨(Undisturbed.refl s).entries, rfl, ⟨0, rfl⟩, id⟩
  | invalidate name => exact calm _ ⟨(Undisturbed.refl s).entries, rfl, ⟨0, rfl⟩, id⟩
  | invalidateAll => exact calm _ ⟨(Undisturbed.refl s).entries, rfl, ⟨0, rfl⟩, id⟩
  | breakAfter records => exact calm _ ⟨(Undisturbed.refl s).entries, rfl, ⟨0, rfl⟩, id⟩
  | keep keys => exact kept (keeps_keep keys)
  | splitTopK f keys k sortStat bottom => exact kept (keeps_splitTopK f keys k sortStat bottom)
  | splitExplode f keys => exact kept (keeps_splitExplode f keys)
  | stream fields => exact sound
  | groupStats ref => exact sound
  | regroup g keys => exact kept (g.keeps_regroup keys)
  | collect g keys refs deadline => exact kept (g.keeps_collect keys refs deadline)
  | execute q settings => exact kept (q.keeps_execute settings)

theorem run {log : Log} (sound : log.Sound) (calls : List Call) : (log.run calls).Sound := by
  induction calls generalizing log with
  | nil => exact sound
  | cons c rest ih => exact ih (sound.step c)

/-- A column adds up alike over the documents in a group, whether as they are or as they were. -/
theorem sumAt_members {es : List Entry} {rs : List Reading} {depth : Nat} {f : Reading → Int64}
    (same : List.Forall₂ (fun (e : Entry) r => e.slots[depth]? = some (f r)) es rs) (g : GroupId) :
    ((es.filter (·.group = g)).map (·.toReading)).map (·.slots.getD depth 0) =
      (((rs.zip (es.map (·.group))).filter (·.2 = g)).map (·.1)).map f := by
  induction same with
  | nil => rfl
  | @cons e r es rs here _ ih =>
    rw [List.map_cons, List.zip_cons_cons, List.filter_cons, List.filter_cons]
    by_cases inside : e.group = g
    · rw [if_pos (decide_eq_true inside), if_pos (decide_eq_true inside)]
      rw [List.map_cons, List.map_cons, List.map_cons, List.map_cons, ih, List.getD_eq_getElem?_getD,
        here, Option.getD_some]
    · rw [if_neg (by simpa using inside), if_neg (by simpa using inside), ih]

/-- A live handle reads for each group the total that its statistic had for the documents in it when it
was pushed. -/
theorem total_members {log : Log} (sound : log.Sound) {p : Issue} (member : p ∈ log.issued)
    (live : log.session.stack.isValid p.ref = true) {g : GroupId} (positive : 0 < g) :
    p.ref.total (log.session.members g) = p.stat.total (p.members log.session.groups g) := by
  have taken := sound.taken p member
  rw [taken]
  refine total_push fun i slot f place value => ?_
  rw [← taken] at place
  have here : log.session.stack.slotIsLive slot = true :=
    (log.session.stack.isValid_iff p.ref).1 live slot (List.mem_of_getElem? place)
  have column : List.Forall₂ (fun (e : Entry) r => e.slots[slot.depth]? = some (f r))
      log.session.entries p.before.readings := by
    refine (sound.values p member).imp ?_
    intro e r denotes
    rw [denotes.2 i slot place here, value r]
  rw [members_of_pos positive, Reading.sumAt, sumAt_members column]
  rfl

end Sound

/-- However a session came to where it is, the values of the documents are in step with its stack, every
live slot was returned by a push, and a live slot holds for every document what its statistic came to when
it was pushed. So a live handle reads, for every group, the total of these values over the documents that
are in the group now, and for group zero the total over none. -/
theorem live_handle_denotes (id : Nat) (docs : List Document) (settings : Settings)
    (calls : List Call) :
    let log := (Log.opened id docs settings).run calls
    log.session.InStep ∧
      (∀ slot, log.session.stack.slotIsLive slot = true → ∃ p ∈ log.issued, slot ∈ p.ref.slots) ∧
      ∀ p ∈ log.issued,
        List.Forall₂ (p.Denotes log.session.stack) log.session.entries p.before.readings ∧
        (log.session.stack.isValid p.ref = true →
          ∃ totals, log.session.groupStats p.ref = .ok totals ∧
            totals.length = log.session.groupCount ∧
            totals[0]? = some (match p.stat.shape with
              | .single => 0
              | .combined op => op.combine 0 0) ∧
            ∀ g, 0 < g → g < log.session.groupCount →
              totals[g]? = some (p.stat.total (p.members log.session.groups g))) := by
  intro log
  have sound : log.Sound := (Sound.opened id docs settings).run calls
  refine ⟨sound.inStep, sound.issued, ?_⟩
  intro p member
  refine ⟨sound.values p member, ?_⟩
  intro live
  obtain ⟨totals, found, length, each⟩ := groupStats_eq_ok sound.inStep live
  refine ⟨totals, found, length, ?_, ?_⟩
  · rw [each 0 sound.groupCount, sound.taken p member]
    cases p.stat.shape with
    | single => rfl
    | combined op => rfl
  · intro g positive inRange
    rw [each g inRange, sound.total_members member live positive]

/-- A number is pushed, and a ratio that reads it back; then the documents are regrouped, the number is
hidden under a metric of its own name, a query fails, the ratio is popped, and its slots are used again. -/
def regrouping : List Call :=
  [.push (.intField "x") (.intField "x"),
    .push (.combination .divide (.slot ⟨0, 0, 1⟩) .count) (.combination (.slot _) .count rfl),
    .assign [2, 1, 2], .registerMetric "x" [1, 2, 3],
    .execute ⟨[("n", .count)], [.field ⟨⟨"x", .int⟩, 0, .count, false, false⟩]⟩
      { Settings.standard with timeout := some 0 },
    .pop, .push .count .count]

theorem live_handle_denotes_of_regrouping :
    let docs : List Document := [⟨[("x", .int 5)]⟩, ⟨[]⟩, ⟨[("x", .int 9)]⟩]
    let log := (Log.opened 0 docs .standard).run regrouping
    log.session.stack.isValid (.single ⟨0, 0, 1⟩) = true ∧
    log.session.stack.isValid (.aggregate .divide ⟨0, 1, 2⟩ ⟨0, 2, 3⟩) = false ∧
    ∃ totals, log.session.groupStats (.single ⟨0, 0, 1⟩) = .ok totals ∧
      totals[0]? = some 0 ∧ totals[1]? = some 0 ∧ totals[2]? = some 14 := by
  intro docs log
  obtain ⟨-, -, issues⟩ := live_handle_denotes 0 docs .standard regrouping
  let first : Issue := ⟨.intField "x", .new 0 docs .standard, .single ⟨0, 0, 1⟩⟩
  have pushed : first ∈ ((Log.opened 0 docs .standard).step (.push _ (.intField "x"))).issued :=
    List.mem_cons_self
  have member : first ∈ log.issued := by
    simp only [log, regrouping, run_cons _ (.push _ (.intField "x"))]
    exact issued_run _ _ pushed
  have live : log.session.stack.isValid first.ref = true := by decide +kernel
  obtain ⟨totals, found, -, outside, each⟩ := (issues first member).2 live
  refine ⟨live, by decide +kernel, totals, found, outside, ?_, ?_⟩
  · rw [each 1 Nat.one_pos (by decide +kernel)]
    decide +kernel
  · rw [each 2 Nat.two_pos (by decide +kernel)]
    decide +kernel

end Log
end Session
end Rollup
