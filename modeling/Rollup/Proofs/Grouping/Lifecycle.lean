import Rollup.Grouping.Stage
import Rollup.Proofs.Outcome

namespace Rollup

namespace Request

/-- The phase of a stage after a request has succeeded. -/
def done : Request → Phase
  | regroup => .regrouped
  | collect => .collected

/-- What may be asked after others have succeeded: a regrouping before anything else, a collection once. -/
def InOrder : Request → List Request → Prop
  | regroup, granted => granted = []
  | collect, granted => collect ∉ granted

end Request

/-- The phase that the requests that have succeeded stand for. -/
def Phase.ofGranted (granted : List Request) : Phase :=
  if .collect ∈ granted then .collected
  else if .regroup ∈ granted then .regrouped
  else .unexecuted

namespace Stage

section Serving
variable {α β : Type} {request : Request} {ask : Grouping → Action Session α} {stage : Stage} {s t : Session}

/-- Asks the grouping when the phase allows it, and enters the next phase when the grouping has answered. -/
def serve (request : Request) (ask : Grouping → Action Session α) : Action (Stage × Session) α := do
  permit request
  let (stage, _) ← get
  let answer ← Action.second (ask stage.grouping)
  enter request.done
  return answer

theorem regroup_eq_serve (keys : KeyMap) : regroup keys = serve .regroup (·.regroup keys) := rfl

theorem collect_eq_serve (keys : KeyMap) (refs : List StatRef) (deadline : Deadline) :
    collect keys refs deadline = serve .collect (·.collect keys refs deadline) := rfl

theorem on_permit (request : Request) (stage : Stage) (s : Session) :
    (permit request).on (stage, s) = (if request.allowedIn stage.phase then .ok ()
      else .error (.invalidPhase stage.grouping.display request stage.phase), (stage, s)) := by
  rw [permit, Action.on_bind_ok (Action.on_get _)]
  by_cases allowed : request.allowedIn stage.phase = true
  · simp only [allowed, if_true]
    rfl
  · simp only [allowed]
    rfl

theorem on_serve_of_refused (refused : request.allowedIn stage.phase = false) :
    (serve request ask).on (stage, s) =
      (.error (.invalidPhase stage.grouping.display request stage.phase), stage, s) := by
  have stopped := on_permit request stage s
  rw [refused] at stopped
  exact Action.on_bind_error stopped

theorem on_serve_of_allowed (allowed : request.allowedIn stage.phase = true) :
    (serve request ask).on (stage, s) =
      (Action.second (ask stage.grouping) >>= fun answer => enter request.done >>= fun _ => pure answer).on
        (stage, s) := by
  have permitted := on_permit request stage s
  rw [allowed] at permitted
  rw [serve, Action.on_bind_ok permitted, Action.on_bind_ok (Action.on_get _)]

theorem on_serve_of_error (allowed : request.allowedIn stage.phase = true) {e : Fault}
    (failed : (ask stage.grouping).on s = (.error e, t)) :
    (serve request ask).on (stage, s) = (.error e, stage, t) := by
  rw [on_serve_of_allowed allowed]
  apply Action.on_bind_error
  rw [Action.on_second, failed]

theorem on_serve_of_ok (allowed : request.allowedIn stage.phase = true) {answer : α}
    (answered : (ask stage.grouping).on s = (.ok answer, t)) :
    (serve request ask).on (stage, s) = (.ok answer, { stage with phase := request.done }, t) := by
  have second : (Action.second (ask stage.grouping)).on (stage, s) = (.ok answer, stage, t) := by
    rw [Action.on_second, answered]
  rw [on_serve_of_allowed allowed, Action.on_bind_ok second]
  rfl

/-- A new stage does what its grouping does. -/
theorem on_beside_serve (request : Request) (ask : Grouping → Action Session α) (g : Grouping) (s : Session) :
    (Action.beside (new g) (serve request ask)).on s = (ask g).on s := by
  have allowed : request.allowedIn (new g).phase = true := by
    cases request <;> rfl
  rw [Action.on_beside]
  rcases asked : (ask g).on s with ⟨outcome, t⟩
  cases outcome with
  | ok answer => rw [on_serve_of_ok allowed asked]
  | error e => rw [on_serve_of_error allowed asked]

theorem on_map_serve (f : α → β) (request : Request) (ask : Grouping → Action Session α) (stage : Stage)
    (s : Session) :
    (f <$> serve request ask).on (stage, s) = (serve request fun g => f <$> ask g).on (stage, s) := by
  rw [Action.on_map]
  cases allowed : request.allowedIn stage.phase with
  | false =>
    rw [on_serve_of_refused allowed, on_serve_of_refused allowed]
    rfl
  | true =>
    have mapped := Action.on_map f (ask stage.grouping) s
    rcases asked : (ask stage.grouping).on s with ⟨outcome, t⟩
    rw [asked] at mapped
    cases outcome with
    | ok answer =>
      rw [on_serve_of_ok allowed asked, on_serve_of_ok allowed mapped]
      rfl
    | error e =>
      rw [on_serve_of_error allowed asked, on_serve_of_error allowed mapped]
      rfl

end Serving

/-- What a call yields when it succeeds. -/
inductive Answer where
  | children (keys : KeyMap)
  | rows (listed : List (Except Fault ResultRow))

/-- A call on a stage, with all that it passes on. Each call may come with a session of its own. -/
inductive Call where
  | regroup (session : Session) (keys : KeyMap)
  | collect (session : Session) (keys : KeyMap) (refs : List StatRef) (deadline : Deadline)

namespace Call

def request : Call → Request
  | regroup _ _ => .regroup
  | collect _ _ _ _ => .collect

def session : Call → Session
  | regroup s _ => s
  | collect s _ _ _ => s

/-- What the call asks of the grouping. -/
def asked (c : Call) (g : Grouping) : Action Session Answer :=
  match c with
  | regroup _ keys => Answer.children <$> g.regroup keys
  | collect _ keys refs deadline => Answer.rows <$> g.collect keys refs deadline

/-- The outcome of a call on a stage, with the stage and the session after it. -/
def made (c : Call) (stage : Stage) : Except Fault Answer × Stage × Session :=
  match c with
  | regroup s keys => (Answer.children <$> Stage.regroup keys).on (stage, s)
  | collect s keys refs deadline => (Answer.rows <$> Stage.collect keys refs deadline).on (stage, s)

theorem made_eq_serve (c : Call) (stage : Stage) :
    c.made stage = (serve c.request c.asked).on (stage, c.session) := by
  cases c with
  | regroup s keys =>
    rw [made, regroup_eq_serve, on_map_serve]
    rfl
  | collect s keys refs deadline =>
    rw [made, collect_eq_serve, on_map_serve]
    rfl

variable {c : Call} {stage : Stage} {t : Session}

/-- A call out of order is refused for the phase, and stage and session are as before. -/
theorem made_of_refused (refused : c.request.allowedIn stage.phase = false) : c.made stage =
    (.error (.invalidPhase stage.grouping.display c.request stage.phase), stage, c.session) := by
  rw [made_eq_serve, on_serve_of_refused refused]

theorem made_of_error (allowed : c.request.allowedIn stage.phase = true) {e : Fault}
    (failed : (c.asked stage.grouping).on c.session = (.error e, t)) : c.made stage = (.error e, stage, t) := by
  rw [made_eq_serve, on_serve_of_error allowed failed]

theorem made_of_ok (allowed : c.request.allowedIn stage.phase = true) {answer : Answer}
    (answered : (c.asked stage.grouping).on c.session = (.ok answer, t)) :
    c.made stage = (.ok answer, { stage with phase := c.request.done }, t) := by
  rw [made_eq_serve, on_serve_of_ok allowed answered]

/-- A call that fails leaves the stage as it was; one that succeeds was in order and has been answered. -/
theorem made_cases (c : Call) (stage : Stage) :
    (∃ e t, c.made stage = (.error e, stage, t)) ∨
      (c.request.allowedIn stage.phase = true ∧ ∃ answer t,
        (c.asked stage.grouping).on c.session = (.ok answer, t) ∧
        c.made stage = (.ok answer, { stage with phase := c.request.done }, t)) := by
  cases allowed : c.request.allowedIn stage.phase with
  | false => exact .inl ⟨_, _, made_of_refused allowed⟩
  | true =>
    rcases asked : (c.asked stage.grouping).on c.session with ⟨outcome, t⟩
    cases outcome with
    | ok answer => exact .inr ⟨rfl, answer, t, rfl, made_of_ok allowed asked⟩
    | error e => exact .inl ⟨e, t, made_of_error allowed asked⟩

/-- A call in order gets what the grouping answers, and leaves the session as the grouping does. -/
theorem made_of_allowed (allowed : c.request.allowedIn stage.phase = true) :
    ((c.made stage).1, (c.made stage).2.2) = (c.asked stage.grouping).on c.session := by
  rcases asked : (c.asked stage.grouping).on c.session with ⟨outcome, t⟩
  cases outcome with
  | ok answer => rw [made_of_ok allowed asked]
  | error e => rw [made_of_error allowed asked]

theorem stage_made_of_error {e : Fault} (failed : (c.made stage).1 = .error e) : (c.made stage).2.1 = stage := by
  rcases c.made_cases stage with ⟨e', t, made⟩ | ⟨-, answer, t, -, made⟩
  · rw [made]
  · rw [made] at failed
    cases failed

end Call

/-- A stage after calls, one after the other. -/
def after (stage : Stage) (calls : List Call) : Stage :=
  calls.foldl (fun stage c => (c.made stage).2.1) stage

/-- The requests that succeed in a run of calls, in order. -/
def granted (stage : Stage) : List Call → List Request
  | [] => []
  | c :: rest =>
    match c.made stage with
    | (.ok _, next, _) => c.request :: next.granted rest
    | (.error _, next, _) => next.granted rest

section Runs
variable {c : Call} {stage next : Stage} {t : Session}

theorem granted_cons_of_error {e : Fault} (failed : c.made stage = (.error e, next, t)) (rest : List Call) :
    stage.granted (c :: rest) = next.granted rest := by
  rw [granted, failed]

theorem granted_cons_of_ok {answer : Answer} (done : c.made stage = (.ok answer, next, t)) (rest : List Call) :
    stage.granted (c :: rest) = c.request :: next.granted rest := by
  rw [granted, done]

theorem after_cons (made : (c.made stage).2.1 = next) (rest : List Call) :
    stage.after (c :: rest) = next.after rest := by
  rw [after, List.foldl_cons, made]
  rfl

theorem grouping_after (stage : Stage) (calls : List Call) : (stage.after calls).grouping = stage.grouping := by
  induction calls generalizing stage with
  | nil => rfl
  | cons c rest ih =>
    rcases c.made_cases stage with ⟨e, t, failed⟩ | ⟨-, answer, t, -, done⟩
    · rw [after_cons (congrArg (·.2.1) failed), ih]
    · rw [after_cons (congrArg (·.2.1) done), ih]

/-- What succeeds in a run is something that the grouping has answered. -/
theorem exists_asked_of_mem_granted {request : Request} {calls : List Call}
    (member : request ∈ stage.granted calls) : ∃ c ∈ calls, c.request = request ∧ ∃ answer t,
      (c.asked stage.grouping).on c.session = (.ok answer, t) := by
  induction calls generalizing stage with
  | nil => cases member
  | cons c rest ih =>
    rcases c.made_cases stage with ⟨e, t, failed⟩ | ⟨-, answer, t, answered, done⟩
    · rw [granted_cons_of_error failed] at member
      obtain ⟨c', later, found⟩ := ih member
      exact ⟨c', List.mem_cons_of_mem _ later, found⟩
    · rw [granted_cons_of_ok done] at member
      rcases List.mem_cons.1 member with rfl | member
      · exact ⟨c, List.mem_cons_self, rfl, answer, t, answered⟩
      · obtain ⟨c', later, found⟩ := ih member
        exact ⟨c', List.mem_cons_of_mem _ later, found⟩

theorem after_concat (stage : Stage) (calls : List Call) (c : Call) :
    stage.after (calls ++ [c]) = (c.made (stage.after calls)).2.1 := List.foldl_concat _ _ _ _

theorem granted_append (stage : Stage) (calls later : List Call) :
    stage.granted (calls ++ later) = stage.granted calls ++ (stage.after calls).granted later := by
  induction calls generalizing stage with
  | nil => rfl
  | cons c rest ih =>
    rcases c.made_cases stage with ⟨e, t, failed⟩ | ⟨-, answer, t, -, done⟩
    · rw [List.cons_append, granted_cons_of_error failed, granted_cons_of_error failed,
        after_cons (congrArg (·.2.1) failed), ih]
    · rw [List.cons_append, granted_cons_of_ok done, granted_cons_of_ok done,
        after_cons (congrArg (·.2.1) done), ih, List.cons_append]

theorem granted_concat_of_ok {calls : List Call} {answer : Answer}
    (succeeded : (c.made (stage.after calls)).1 = .ok answer) :
    stage.granted (calls ++ [c]) = stage.granted calls ++ [c.request] := by
  rcases made : c.made (stage.after calls) with ⟨outcome, next, t⟩
  obtain rfl : outcome = .ok answer := (congrArg Prod.fst made).symm.trans succeeded
  rw [granted_append, granted_cons_of_ok made]
  rfl

theorem granted_concat_of_error {calls : List Call} {e : Fault}
    (failed : (c.made (stage.after calls)).1 = .error e) :
    stage.granted (calls ++ [c]) = stage.granted calls := by
  rcases made : c.made (stage.after calls) with ⟨outcome, next, t⟩
  obtain rfl : outcome = .error e := (congrArg Prod.fst made).symm.trans failed
  rw [granted_append, granted_cons_of_error made]
  exact List.append_nil _

end Runs

/-- The requests that may have succeeded by now, with the phase that they have led to. -/
inductive Course : List Request → Phase → Prop where
  | start : Course [] .unexecuted
  | grant {granted : List Request} {phase : Phase} (before : Course granted phase) (request : Request)
      (allowed : request.allowedIn phase = true) : Course (granted ++ [request]) request.done

namespace Course
variable {granted : List Request} {phase : Phase}

theorem run {stage : Stage} (course : Course granted stage.phase) (calls : List Call) :
    Course (granted ++ stage.granted calls) (stage.after calls).phase := by
  induction calls generalizing granted stage with
  | nil =>
    rw [Stage.granted, List.append_nil]
    exact course
  | cons c rest ih =>
    rcases c.made_cases stage with ⟨e, t, failed⟩ | ⟨allowed, answer, t, -, done⟩
    · rw [granted_cons_of_error failed, after_cons (congrArg (·.2.1) failed)]
      exact ih course
    · rw [granted_cons_of_ok done, after_cons (congrArg (·.2.1) done), List.append_cons]
      exact ih (course.grant c.request allowed)

/-- There are four courses. -/
theorem cases (course : Course granted phase) :
    granted = [] ∧ phase = .unexecuted ∨ granted = [.regroup] ∧ phase = .regrouped ∨
      granted = [.collect] ∧ phase = .collected ∨ granted = [.regroup, .collect] ∧ phase = .collected := by
  induction course with
  | start => exact .inl ⟨rfl, rfl⟩
  | grant before request allowed ih =>
    rcases ih with ⟨rfl, rfl⟩ | ⟨rfl, rfl⟩ | ⟨rfl, rfl⟩ | ⟨rfl, rfl⟩ <;> cases request <;>
      simp [Request.allowedIn, Request.done] at allowed ⊢

theorem phase_eq (course : Course granted phase) : phase = .ofGranted granted := by
  rcases course.cases with ⟨rfl, rfl⟩ | ⟨rfl, rfl⟩ | ⟨rfl, rfl⟩ | ⟨rfl, rfl⟩ <;> rfl

theorem once (course : Course granted phase) : granted.count .regroup ≤ 1 ∧ granted.count .collect ≤ 1 ∧
    granted.Pairwise fun earlier later => earlier = .collect → later ≠ .regroup := by
  rcases course.cases with ⟨rfl, rfl⟩ | ⟨rfl, rfl⟩ | ⟨rfl, rfl⟩ | ⟨rfl, rfl⟩ <;> decide

theorem inOrder_iff (course : Course granted phase) (request : Request) :
    request.InOrder granted ↔ request.allowedIn phase = true := by
  rcases course.cases with ⟨rfl, rfl⟩ | ⟨rfl, rfl⟩ | ⟨rfl, rfl⟩ | ⟨rfl, rfl⟩ <;> cases request <;>
    simp [Request.InOrder, Request.allowedIn]

end Course

theorem course_granted (g : Grouping) (calls : List Call) :
    Course ((new g).granted calls) ((new g).after calls).phase := by
  have unexecuted : Course [] (new g).phase := .start
  exact unexecuted.run calls

theorem regroup_notMem_granted_of_percentile (p : PercentileGrouping) (calls : List Call) :
    .regroup ∉ (new (.percentile p)).granted calls := by
  intro member
  obtain ⟨c, -, request, answer, t, answered⟩ := exists_asked_of_mem_granted member
  cases c with
  | regroup s keys => cases congrArg Prod.fst answered
  | collect s keys refs deadline => cases request

theorem granted_of_diff (d : DiffGrouping) (calls : List Call) : (new (.diff d)).granted calls = [] := by
  rw [List.eq_nil_iff_forall_not_mem]
  intro request member
  obtain ⟨c, -, -, answer, t, answered⟩ := exists_asked_of_mem_granted member
  cases c with
  | regroup s keys => cases congrArg Prod.fst answered
  | collect s keys refs deadline =>
    simp only [Call.asked, new, Grouping.collect, Action.forM_ofExcept, Action.on_map,
      Action.on_bind_ok (Action.on_get _)] at answered
    cases valid : refs.forM s.stack.requireValid with
    | ok _ =>
      rw [Call.session, valid, Action.on_bind_ok (Action.on_ofExcept _ s)] at answered
      cases congrArg Prod.fst answered
    | error e =>
      rw [Call.session, valid, Action.on_bind_error (Action.on_ofExcept _ s)] at answered
      cases congrArg Prod.fst answered

/-- Over every run of calls on a new stage, with whatever sessions, keys, handles and deadlines: at most one
regrouping and at most one collection succeed, and no regrouping after a collection; the phase tells which have.
A call out of order is refused and touches neither stage nor session; one in order gets what the grouping answers
and leaves the session as the grouping does. A call that fails, for whatever reason, leaves the stage as if it had
not been made, so what was in order before is in order still. A diff stage stays unexecuted, and a percentile
stage is never regrouped. -/
theorem lifecycle_exact (g : Grouping) (calls : List Call) :
    let stage := (new g).after calls
    let granted := (new g).granted calls
    (granted.count .regroup ≤ 1 ∧ granted.count .collect ≤ 1 ∧
      granted.Pairwise fun earlier later => earlier = .collect → later ≠ .regroup) ∧
    stage.phase = .ofGranted granted ∧
    (∀ c : Call,
      (¬c.request.InOrder granted →
        c.made stage = (.error (.invalidPhase g.display c.request stage.phase), stage, c.session)) ∧
      (c.request.InOrder granted →
        ((c.made stage).1, (c.made stage).2.2) = (c.asked g).on c.session) ∧
      (∀ answer, (c.made stage).1 = .ok answer → (new g).granted (calls ++ [c]) = granted ++ [c.request]) ∧
      ∀ e, (c.made stage).1 = .error e → (c.made stage).2.1 = stage ∧
        (new g).after (calls ++ [c]) = stage ∧ (new g).granted (calls ++ [c]) = granted) ∧
    (∀ d, g = .diff d → stage.phase = .unexecuted) ∧
    ∀ p, g = .percentile p → stage.phase ≠ .regrouped := by
  intro stage granted
  have course : Course granted stage.phase := course_granted g calls
  have same : stage.grouping = g := grouping_after (new g) calls
  refine ⟨course.once, course.phase_eq, ?_, ?_, ?_⟩
  · intro c
    have order := course.inOrder_iff c.request
    refine ⟨?_, ?_, fun answer => granted_concat_of_ok, ?_⟩
    · intro out
      rw [order, Bool.not_eq_true] at out
      rw [Call.made_of_refused out, same]
    · intro inOrder
      rw [Call.made_of_allowed (order.1 inOrder), same]
    · intro e failed
      have unchanged : (c.made stage).2.1 = stage := Call.stage_made_of_error failed
      exact ⟨unchanged, (after_concat _ calls c).trans unchanged, granted_concat_of_error failed⟩
  · rintro d rfl
    rw [course.phase_eq, show granted = [] from granted_of_diff d calls]
    rfl
  · rintro p rfl
    rw [course.phase_eq, Phase.ofGranted, if_neg (regroup_notMem_granted_of_percentile p calls)]
    split <;> decide

/-- Two documents with a term each, in a session that has room for so many groups. -/
def twoTerms (limit : Nat) : Session :=
  .new 0 [⟨[("x", .int 1)]⟩, ⟨[("x", .int 2)]⟩] { Settings.standard with groupLimit := limit }

/-- A regrouping that was refused for the group limit is made once more, with room enough, and then again. -/
theorem lifecycle_exact_of_retried :
    let stage := new (.field ⟨⟨"x", .int⟩, 0, .count, false, false⟩)
    let tight : Call := .regroup (twoTerms 2) .initial
    let roomy : Call := .regroup (twoTerms 3) .initial
    (tight.made stage).1 = .error (.groupLimitExceeded 2 2) ∧
      stage.after [tight] = stage ∧
      stage.granted [tight, roomy] = [.regroup] ∧
      (stage.after [tight, roomy]).phase = .regrouped ∧
      roomy.made (stage.after [tight, roomy]) =
        (.error (.invalidPhase "field grouping on x" .regroup .regrouped), stage.after [tight, roomy],
          twoTerms 3) := by
  intro stage tight roomy
  have exceeded : (tight.made stage).1 = .error (.groupLimitExceeded 2 2) := rfl
  obtain ⟨-, -, first, -, -⟩ := lifecycle_exact stage.grouping []
  obtain ⟨-, left, forgotten⟩ := (first tight).2.2.2 _ exceeded
  obtain ⟨-, -, second, -, -⟩ := lifecycle_exact stage.grouping [tight]
  obtain ⟨answer, split⟩ : ∃ answer, ((roomy.asked stage.grouping).on (twoTerms 3)).1 = .ok answer := ⟨_, rfl⟩
  have accepted : (roomy.made (stage.after [tight])).1 = .ok answer :=
    (congrArg Prod.fst ((second roomy).2.1 forgotten)).trans split
  have granted : stage.granted [tight, roomy] = [.regroup] :=
    ((second roomy).2.2.1 answer accepted).trans (congrArg (· ++ [Request.regroup]) forgotten)
  obtain ⟨-, phase, third, -, -⟩ := lifecycle_exact stage.grouping [tight, roomy]
  have regrouped : (stage.after [tight, roomy]).phase = .regrouped := phase.trans (congrArg Phase.ofGranted granted)
  have refused := (third roomy).1 fun first => by cases granted.symm.trans first
  refine ⟨exceeded, left, granted, regrouped, refused.trans ?_⟩
  rw [show ((new stage.grouping).after [tight, roomy]).phase = .regrouped from regrouped]
  rfl

end Stage
end Rollup
