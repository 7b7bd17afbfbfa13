import Rollup.Proofs.Stream.Fold

namespace Rollup

namespace Deadline

/-- The deadlines there are, with the clock anywhere. -/
inductive Made : Deadline → Prop
  | none (elapsed : Nat) : Made { none with elapsed := elapsed }
  | after (limit interval elapsed : Nat) : Made { after limit interval with elapsed := elapsed }

theorem made_ofSettings (s : Settings) (elapsed : Nat) :
    Made { ofSettings s with elapsed := elapsed } := by
  unfold ofSettings
  cases s.timeout with
  | none => exact .none elapsed
  | some limit => exact .after limit s.checkInterval elapsed

/-- The test whether the clock is looked at, by a remainder that there is only for a positive interval. It is
taken only under a limit. -/
def dividing (d : Deadline) (seen : Nat) : Option Bool :=
  if d.limit.isSome then
    if d.interval = 0 then .none else some (seen % d.interval == 0)
  else some false

theorem dividing_of_made {d : Deadline} (made : d.Made) (seen : Nat) :
    d.dividing seen = some (d.due seen) := by
  cases made with
  | none elapsed => rfl
  | after limit interval elapsed =>
    have positive : Nat.max interval 1 ≠ 0 := Nat.ne_of_gt (Nat.le_max_right interval 1)
    exact if_neg positive

/-- Before the first record the clock is looked at whatever the interval. -/
theorem look_zero_of_missed {d : Deadline} (missed : d.missed = true) :
    d.look 0 = .error .deadlineExceeded := by
  have limited : d.limit.isSome = true := by
    cases limit : d.limit with
    | none =>
      rw [Deadline.missed, limit] at missed
      cases missed
    | some l => rfl
  have due : d.due 0 = true := by rw [due, limited, Nat.zero_mod, beq_self_eq_true, Bool.and_self]
  rw [look, if_pos due, check, missed]
  rfl

end Deadline

namespace Sink

/-- A call of a sink, with the kind of its term. -/
inductive Call where
  | int (field : String) (term : Int64) (group : GroupId) (stats : List Float)
  | text (field term : String) (group : GroupId) (stats : List Float)
  deriving DecidableEq

/-- The call that a record asks for. -/
def Call.of (r : Record) : Call :=
  match r.term with
  | .int term => .int r.field term r.group r.stats
  | .text term => .text r.field term r.group r.stats

variable {σ : Type}

/-- Notes a call, also one that fails. -/
def note (c : Call) (x : Action σ Unit) : Action (List Call × σ) Unit := do
  modify fun s => (s.1 ++ [c], s.2)
  Action.second x

/-- A sink that notes its calls in order. -/
def noting (sink : Sink σ) : Sink (List Call × σ) where
  int field term group stats := note (.int field term group stats) (sink.int field term group stats)
  text field term group stats := note (.text field term group stats) (sink.text field term group stats)

variable (sink : Sink σ)

theorem on_accept_noting (r : Record) (calls : List Call) (s : σ) :
    (sink.noting.accept r).on (calls, s) =
      (((sink.accept r).on s).1, calls ++ [.of r], ((sink.accept r).on s).2) := by
  obtain ⟨field, term, group, stats⟩ := r
  cases term with
  | int v => rfl
  | text v => rfl

/-- How a fold comes to an end after `n` records that its sink took in: at the end of the stream, at a fault,
or at a record that the sink is called for and refuses. -/
inductive Ends (n : Nat) (s : σ) : Stream → List Call → Except Fault Nat → σ → Prop
  | behind : Ends n s [] [] (.ok n) s
  | fault (e : Fault) (rest : Stream) : Ends n s (.error e :: rest) [] (.error e) s
  | refused {r : Record} {e : Fault} {t : σ} (failed : (sink.accept r).on s = (.error e, t)) (rest : Stream) :
      Ends n s (.ok r :: rest) [.of r] (.error e) t

theorem on_forM_accept_cons (r : Record) (rest : List Record) (s : σ) :
    ((r :: rest).forM sink.accept).on s = (sink.accept r >>= fun _ => rest.forM sink.accept).on s := rfl

variable {sink} {deadline : Deadline}

theorem on_foldFrom_cons_of_inTime (inTime : deadline.missed = false) (seen : Nat) (item : Except Fault Record)
    (rest : Stream) (s : σ) :
    (sink.foldFrom deadline seen (item :: rest)).on s =
      (Action.ofExcept item >>= fun r => sink.accept r >>= fun _ =>
        sink.foldFrom deadline (seen + 1) rest).on s := by
  rw [foldFrom_cons, Deadline.look_of_inTime inTime]
  exact Action.on_bind_ok (Action.on_ofExcept (.ok ()) s)

/-- A fold in time takes in records until it comes to an end. -/
theorem exists_prefix (inTime : deadline.missed = false) (stream : Stream) (seen : Nat) (calls : List Call)
    (s : σ) :
    ∃ (records : List Record) (rest : Stream) (u : σ) (last : List Call) (outcome : Except Fault Nat) (t : σ),
      stream = records.map .ok ++ rest ∧ (records.forM sink.accept).on s = (.ok (), u) ∧
      sink.Ends (seen + records.length) u rest last outcome t ∧
      (sink.foldFrom deadline seen stream).on s = (outcome, t) ∧
      (sink.noting.foldFrom deadline seen stream).on (calls, s) =
        (outcome, calls ++ records.map .of ++ last, t) := by
  induction stream generalizing seen calls s with
  | nil =>
    refine ⟨[], [], s, [], .ok seen, s, rfl, rfl, .behind, rfl, ?_⟩
    rw [List.map_nil, List.append_nil, List.append_nil]
    rfl
  | cons item rest ih =>
    rw [on_foldFrom_cons_of_inTime inTime, on_foldFrom_cons_of_inTime inTime]
    cases item with
    | error e =>
      refine ⟨[], .error e :: rest, s, [], .error e, s, rfl, rfl, .fault e rest, rfl, ?_⟩
      rw [List.map_nil, List.append_nil, List.append_nil]
      rfl
    | ok r =>
      rw [Action.on_bind_ok (Action.on_ofExcept (.ok r) s),
        Action.on_bind_ok (Action.on_ofExcept (.ok r) (calls, s))]
      have noted := sink.on_accept_noting r calls s
      rcases accepted : (sink.accept r).on s with ⟨outcome, t⟩
      rw [accepted] at noted
      cases outcome with
      | error e =>
        refine ⟨[], .ok r :: rest, s, [.of r], .error e, t, rfl, rfl, .refused accepted rest,
          Action.on_bind_error accepted, ?_⟩
        rw [List.map_nil, List.append_nil]
        exact Action.on_bind_error noted
      | ok _ =>
        obtain ⟨records, later, u, last, outcome, v, rfl, taken, ends, folded, seenCalls⟩ :=
          ih (seen + 1) (calls ++ [.of r]) t
        refine ⟨r :: records, later, u, last, outcome, v, rfl, ?_, ?_, ?_, ?_⟩
        · rw [on_forM_accept_cons, Action.on_bind_ok accepted, taken]
        · rw [List.length_cons, Nat.add_comm records.length, ← Nat.add_assoc]
          exact ends
        · rw [Action.on_bind_ok accepted, folded]
        · rw [Action.on_bind_ok noted, seenCalls, List.map_cons, List.append_assoc, List.append_assoc,
            List.append_assoc]
          rfl

/-- Records that the sink takes in one after the other are folded in time to their number. -/
theorem on_foldFrom_of_taken (inTime : deadline.missed = false) {records : List Record} (seen : Nat) {s t : σ}
    (taken : (records.forM sink.accept).on s = (.ok (), t)) :
    (sink.foldFrom deadline seen (records.map .ok)).on s = (.ok (seen + records.length), t) := by
  induction records generalizing seen s with
  | nil =>
    cases taken
    rfl
  | cons r rest ih =>
    rw [on_forM_accept_cons, Action.on_step_bind_eq_ok_iff] at taken
    obtain ⟨u, accepted, later⟩ := taken
    rw [List.map_cons, on_foldFrom_cons_of_inTime inTime,
      Action.on_bind_ok (Action.on_ofExcept (.ok r) s), Action.on_bind_ok accepted, ih (seen + 1) later,
      List.length_cons, Nat.add_comm rest.length, ← Nat.add_assoc]

/-- A missed deadline is met before the first item, whatever that is. -/
theorem on_fold_of_missed (missed : deadline.missed = true) (stream : Stream) (s : σ) :
    (sink.fold deadline stream).on s =
      (if stream.isEmpty then .ok 0 else .error .deadlineExceeded, s) := by
  cases stream with
  | nil => rfl
  | cons item rest =>
    rw [fold, foldFrom_cons, Deadline.look_zero_of_missed missed]
    rfl

/-- What a fold does with any stream, sink and start. In time, it takes in the records of a prefix and comes to
the end of the stream, a fault or a refusal, and its outcome is what it comes to; a sink that notes its calls
has got one for each of these records, in their order and by the kinds of their terms, one more for a record
that it refuses, and no other. So it yields a number exactly where the stream is so many records and all are
taken in. Behind its deadline it makes no call, and fails unless the stream is empty. The test whether the
deadline is due divides by no zero, however the deadline is made. -/
theorem fold_reads_prefix (sink : Sink σ) (deadline : Deadline) (stream : Stream) (s : σ) :
    (deadline.missed = false →
      (∃ (records : List Record) (rest : Stream) (u t : σ) (last : List Call) (outcome : Except Fault Nat),
        stream = records.map .ok ++ rest ∧ (records.forM sink.accept).on s = (.ok (), u) ∧
        sink.Ends records.length u rest last outcome t ∧ (sink.fold deadline stream).on s = (outcome, t) ∧
        (sink.noting.fold deadline stream).on ([], s) = (outcome, records.map .of ++ last, t)) ∧
      ∀ n t, (sink.fold deadline stream).on s = (.ok n, t) ↔
        ∃ records : List Record, stream = records.map .ok ∧ records.length = n ∧
          (records.forM sink.accept).on s = (.ok (), t)) ∧
    (deadline.missed = true →
      (sink.noting.fold deadline stream).on ([], s) =
        (if stream.isEmpty then .ok 0 else .error .deadlineExceeded, [], s) ∧
      (sink.fold deadline stream).on s = (if stream.isEmpty then .ok 0 else .error .deadlineExceeded, s)) ∧
    (deadline.Made → ∀ seen, deadline.dividing seen = some (deadline.due seen)) := by
  refine ⟨?_, ?_, Deadline.dividing_of_made⟩
  · intro inTime
    obtain ⟨records, rest, u, last, outcome, v, split, taken, ends, folded, noted⟩ :=
      sink.exists_prefix inTime stream 0 [] s
    rw [Nat.zero_add] at ends
    refine ⟨⟨records, rest, u, v, last, outcome, split, taken, ends, folded, noted⟩, ?_⟩
    intro n t
    constructor
    · intro counted
      rw [fold, folded] at counted
      cases counted
      cases ends with
      | behind => exact ⟨records, split.trans (List.append_nil _), rfl, taken⟩
    · intro whole
      obtain ⟨all, rfl, rfl, taken⟩ := whole
      rw [fold, on_foldFrom_of_taken inTime 0 taken, Nat.zero_add]
  · intro missed
    exact ⟨on_fold_of_missed missed stream ([], s), on_fold_of_missed missed stream s⟩

/-- Adds up integers and refuses texts, and integers above ten after they were added. -/
def small : Sink Int64 where
  int field term _ _ := do
    modify (· + term)
    if 10 < term then throw (.streamAborted field "too large")
  text field _ _ _ := throw (.textTermUnsupported field)

/-- A record to take in, one to refuse, a fault, and one more record. -/
def mixedStream : Stream :=
  [.ok ⟨"x", .int 3, 1, []⟩, .ok ⟨"x", .int 20, 1, []⟩, .error .stackUnderflow, .ok ⟨"x", .int 4, 1, []⟩]

theorem fold_reads_prefix_of_mixedStream :
    let early : Deadline := { Deadline.after 5 0 with elapsed := 4 }
    let late : Deadline := Deadline.after 0 0
    early.Made ∧ early.missed = false ∧ late.Made ∧ late.missed = true ∧
    early.dividing 0 = some true ∧
    (∃ (records : List Record) (rest : Stream) (last : List Call), mixedStream = records.map .ok ++ rest ∧
      (small.noting.fold early mixedStream).on ([], 0) =
        (.error (.streamAborted "x" "too large"), records.map .of ++ last, 23) ∧
      records.map .of ++ last = [.int "x" 3 1 [], .int "x" 20 1 []]) ∧
    (small.noting.fold late [.error .stackUnderflow]).on ([], 0) = (.error .deadlineExceeded, [], 0) ∧
    (small.fold late []).on 0 = (.ok 0, 0) := by
  intro early late
  have earlyMade : early.Made := .after 5 0 4
  have lateMade : late.Made := .after 0 0 0
  obtain ⟨inTime, -, divides⟩ := fold_reads_prefix small early mixedStream 0
  obtain ⟨-, faulty, -⟩ := fold_reads_prefix small late [.error .stackUnderflow] 0
  obtain ⟨-, empty, -⟩ := fold_reads_prefix small late [] 0
  obtain ⟨⟨records, rest, u, t, last, outcome, split, -, -, -, noted⟩, -⟩ := inTime rfl
  have run : (small.noting.fold early mixedStream).on ([], 0) =
      (.error (.streamAborted "x" "too large"), [.int "x" 3 1 [], .int "x" 20 1 []], 23) := by
    decide +kernel
  rw [noted] at run
  obtain ⟨rfl, calls, rfl⟩ : outcome = _ ∧ records.map .of ++ last = _ ∧ t = _ := by
    simpa only [Prod.mk.injEq] using run
  exact ⟨earlyMade, rfl, lateMade, rfl, divides earlyMade 0, ⟨records, rest, last, split, noted, calls⟩,
    (faulty rfl).1, (empty rfl).2⟩

end Sink
end Rollup
