import Rollup.Proofs.Outcome
import Rollup.Stream.Basic

namespace Rollup

theorem Deadline.check_of_inTime {deadline : Deadline} (inTime : deadline.missed = false) :
    deadline.check = .ok () := by
  rw [check, inTime]
  rfl

/-- What the clock says before the record that follows `seen` others. -/
def Deadline.look (deadline : Deadline) (seen : Nat) : Except Fault Unit :=
  if deadline.due seen then deadline.check else .ok ()

/-- A deadline that is not missed is as good as none. -/
theorem Deadline.look_of_inTime {deadline : Deadline} (inTime : deadline.missed = false) :
    deadline.look = Deadline.none.look := by
  funext seen
  rw [look, check_of_inTime inTime, ite_self]
  rfl

namespace Sink
variable {σ : Type}

theorem on_accept_collecting (add : Record → σ → σ) (r : Record) (s : σ) :
    ((collecting add).accept r).on s = (.ok (), add r s) := by
  obtain ⟨field, term, group, stats⟩ := r
  cases term with
  | int v => rfl
  | text v => rfl

theorem on_foldFrom_of_accept {sink : Sink σ} {f : Record → σ → σ} {deadline : Deadline}
    (inTime : deadline.missed = false) {records : List Record}
    (accepts : ∀ r ∈ records, ∀ s, (sink.accept r).on s = (.ok (), f r s)) (seen : Nat) (start : σ) :
    (sink.foldFrom deadline seen (records.map .ok)).on start =
      (.ok (seen + records.length), records.foldl (fun s r => f r s) start) := by
  have check : deadline.check = .ok () := Deadline.check_of_inTime inTime
  induction records generalizing seen start with
  | nil => rfl
  | cons r rest ih =>
    have here : (sink.accept r).on start = (.ok (), f r start) := accepts r List.mem_cons_self start
    have later := ih (fun r' member => accepts r' (List.mem_cons_of_mem r member)) (seen + 1) (f r start)
    have length : seen + (r :: rest).length = seen + 1 + rest.length := by
      rw [List.length_cons]
      omega
    rw [List.map_cons, foldFrom, length, List.foldl_cons, ← later]
    by_cases due : deadline.due seen
    · rw [if_pos due]
      simp only [Action.on_bind, Action.on_ofExcept, check, here]
    · rw [if_neg due]
      simp only [Action.on_bind, Action.on_ofExcept, here]

theorem result_of_accept {sink : Sink σ} {f : Record → σ → σ} {deadline : Deadline}
    (inTime : deadline.missed = false) {records : List Record}
    (accepts : ∀ r ∈ records, ∀ s, (sink.accept r).on s = (.ok (), f r s)) (start : σ) :
    sink.result deadline (records.map .ok) start = .ok (records.foldl (fun s r => f r s) start) := by
  rw [result, fold, on_foldFrom_of_accept inTime accepts]

theorem result_collecting (add : Record → σ → σ) {deadline : Deadline}
    (inTime : deadline.missed = false) (records : List Record) (start : σ) :
    (collecting add).result deadline (records.map .ok) start =
      .ok (records.foldl (fun s r => add r s) start) :=
  result_of_accept inTime (fun r _ s => on_accept_collecting add r s) start

/-- What a fold leaves behind is what its records have made of the sink by the end of the stream. -/
theorem result_eq_ok_iff {sink : Sink σ} {deadline : Deadline} {stream : Stream} {start final : σ} :
    sink.result deadline stream start = .ok final ↔
      ∃ n, (sink.foldFrom deadline 0 stream).on start = (.ok n, final) := by
  rw [result, fold]
  rcases (sink.foldFrom deadline 0 stream).on start with ⟨outcome, t⟩
  cases outcome with
  | error e => simp
  | ok n => simp

/-- A fold gets past a record when the clock, if it is looked at, and the sink let it. -/
theorem on_foldFrom_cons_eq_ok_iff {sink : Sink σ} {deadline : Deadline} {seen n : Nat}
    {item : Except Fault Record} {rest : Stream} {s t : σ} :
    (sink.foldFrom deadline seen (item :: rest)).on s = (.ok n, t) ↔
      (deadline.due seen = true → deadline.check = .ok ()) ∧
        ∃ r u, item = .ok r ∧ (sink.accept r).on s = (.ok (), u) ∧
          (sink.foldFrom deadline (seen + 1) rest).on u = (.ok n, t) := by
  rw [foldFrom]
  by_cases due : deadline.due seen = true
  · simp [due, Action.on_ofExcept_bind_eq_ok_iff, Action.on_step_bind_eq_ok_iff, Unique.exists_iff]
  · simp [due, Action.on_ofExcept_bind_eq_ok_iff, Action.on_step_bind_eq_ok_iff]

/-- A fold that succeeds has taken in a whole stream of records. -/
theorem exists_records_of_foldFrom {sink : Sink σ} {f : Record → σ → σ} {deadline : Deadline}
    (accepts : ∀ r s s', (sink.accept r).on s = (.ok (), s') → s' = f r s) {stream : Stream} {seen n : Nat}
    {s t : σ} (done : (sink.foldFrom deadline seen stream).on s = (.ok n, t)) :
    ∃ records : List Record, stream = records.map .ok ∧ t = records.foldl (fun s r => f r s) s := by
  induction stream generalizing seen s with
  | nil =>
    cases done
    exact ⟨[], rfl, rfl⟩
  | cons item rest ih =>
    obtain ⟨-, r, u, rfl, accepted, later⟩ := on_foldFrom_cons_eq_ok_iff.1 done
    obtain ⟨records, rfl, final⟩ := ih later
    refine ⟨r :: records, rfl, ?_⟩
    rw [final, accepts r s u accepted, List.foldl_cons]

/-- Without a deadline the same records are taken in as by a fold that succeeds in spite of one. -/
theorem on_foldFrom_none {sink : Sink σ} {deadline : Deadline} {stream : Stream} {seen n : Nat} {s t : σ}
    (done : (sink.foldFrom deadline seen stream).on s = (.ok n, t)) :
    (∃ records : List Record, stream = records.map .ok) ∧
      (sink.foldFrom .none seen stream).on s = (.ok n, t) := by
  induction stream generalizing seen s with
  | nil => exact ⟨⟨[], rfl⟩, done⟩
  | cons item rest ih =>
    obtain ⟨-, r, u, rfl, accepted, later⟩ := on_foldFrom_cons_eq_ok_iff.1 done
    obtain ⟨⟨records, rfl⟩, undisturbed⟩ := ih later
    exact ⟨⟨r :: records, rfl⟩,
      on_foldFrom_cons_eq_ok_iff.2 ⟨fun _ => rfl, r, u, rfl, accepted, undisturbed⟩⟩

theorem foldFrom_cons (sink : Sink σ) (deadline : Deadline) (seen : Nat) (item : Except Fault Record)
    (rest : Stream) :
    sink.foldFrom deadline seen (item :: rest) = Action.ofExcept (deadline.look seen) >>= fun _ =>
      Action.ofExcept item >>= fun r => sink.accept r >>= fun _ =>
        sink.foldFrom deadline (seen + 1) rest := by
  rw [foldFrom, Deadline.look]
  by_cases due : deadline.due seen = true
  · rw [if_pos due, if_pos due]
  · rw [if_neg due, if_neg due]
    rfl

/-- A fold meets a deadline only where it looks at the clock. -/
theorem foldFrom_of_look {d d' : Deadline} (looks : d'.look = d.look) (sink : Sink σ) (seen : Nat)
    (stream : Stream) : sink.foldFrom d' seen stream = sink.foldFrom d seen stream := by
  induction stream generalizing seen with
  | nil => rfl
  | cons item rest ih => rw [foldFrom_cons, foldFrom_cons, looks, ih]

theorem result_of_look {d d' : Deadline} (looks : d'.look = d.look) (sink : Sink σ) (stream : Stream)
    (start : σ) : sink.result d' stream start = sink.result d stream start := by
  rw [result, fold, foldFrom_of_look looks]
  rfl

/-- A fold that succeeds under a deadline has met no fault and leaves behind the same without one. -/
theorem result_none {sink : Sink σ} {deadline : Deadline} {stream : Stream} {start final : σ}
    (done : sink.result deadline stream start = .ok final) :
    (∃ records : List Record, stream = records.map .ok) ∧
      sink.result .none stream start = .ok final := by
  obtain ⟨n, folded⟩ := result_eq_ok_iff.1 done
  obtain ⟨whole, undisturbed⟩ := on_foldFrom_none folded
  exact ⟨whole, result_eq_ok_iff.2 ⟨n, undisturbed⟩⟩

theorem exists_records_of_result {sink : Sink σ} {f : Record → σ → σ} {deadline : Deadline}
    (accepts : ∀ r s s', (sink.accept r).on s = (.ok (), s') → s' = f r s) {stream : Stream}
    {start final : σ} (done : sink.result deadline stream start = .ok final) :
    ∃ records : List Record, stream = records.map .ok ∧
      final = records.foldl (fun s r => f r s) start := by
  obtain ⟨n, folded⟩ := result_eq_ok_iff.1 done
  exact exists_records_of_foldFrom accepts folded

theorem exists_records_of_collecting {add : Record → σ → σ} {deadline : Deadline} {stream : Stream}
    {start final : σ} (done : (collecting add).result deadline stream start = .ok final) :
    ∃ records : List Record, stream = records.map .ok ∧
      final = records.foldl (fun s r => add r s) start := by
  refine exists_records_of_result ?_ done
  intro r s s' accepted
  rw [on_accept_collecting] at accepted
  exact (congrArg Prod.snd accepted).symm

end Sink
end Rollup
