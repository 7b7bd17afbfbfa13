import Rollup.Proofs.Grouping.RowKeys
import Rollup.Proofs.Query.Columns

namespace Rollup

/-- The same settings without a time limit. -/
def Settings.untimed (settings : Settings) : Settings := { settings with timeout := none }

namespace Session
variable {α β : Type}

/-- The session without a planned break of its streams. -/
def mended (s : Session) : Session := { s with failAfter := none }

theorem mended_of_failAfter {s : Session} (sound : s.failAfter = none) : s.mended = s := by
  cases s
  cases sound
  rfl

/-- If the first action succeeds on a session, the second succeeds alike on the mended session. -/
def Survives (s : Session) (x y : Action Session α) : Prop :=
  ∀ a t, x.on s = (.ok a, t) → y.on s.mended = (.ok a, t.mended)

namespace Survives
variable {s : Session}

theorem pure (a : α) : s.Survives (pure a) (pure a) := by
  intro b t h
  cases h
  rfl

theorem throw (e : Fault) (y : Action Session α) : s.Survives (throw e) y := by
  intro a t h
  cases h

theorem ofExcept {x y : Except Fault α} (same : ∀ a, x = .ok a → y = .ok a) :
    s.Survives (Action.ofExcept x) (Action.ofExcept y) := by
  intro a t h
  have outcome : x = .ok a := congrArg Prod.fst h
  cases congrArg Prod.snd h
  rw [same a outcome]
  rfl

theorem set (t : Session) : s.Survives (set t) (set t.mended) := by
  intro a u h
  cases h
  rfl

theorem bind {x y : Action Session α} {f g : α → Action Session β} (first : s.Survives x y)
    (next : ∀ a t, Survives t (f a) (g a)) : s.Survives (x >>= f) (y >>= g) := by
  intro b u h
  obtain ⟨a, t, here, later⟩ := Action.on_bind_eq_ok_iff.1 h
  rw [Action.on_bind_ok (first a t here)]
  exact next a t b u later

/-- What looks at the session sees the mended one the second time. -/
theorem get_bind {f g : Session → Action Session α} (next : s.Survives (f s) (g s.mended)) :
    s.Survives (get >>= f) (get >>= g) := by
  intro a t h
  rw [Action.on_bind_ok (Action.on_get s)] at h
  rw [Action.on_bind_ok (Action.on_get s.mended)]
  exact next a t h

end Survives

section Parts
variable (s : Session)

theorem survives_push (stat : Stat) : s.Survives (push stat) (push stat) := by
  refine .get_bind (.bind (.ofExcept fun _ h => h) fun tokens t => .bind ?_ fun _ u => ?_)
  · exact .get_bind (.bind (.ofExcept fun _ h => h) fun entries _ => .set _)
  · exact .get_bind (.bind (.set _) fun _ _ => .pure _)

theorem survives_pop : s.Survives pop pop := by
  refine .bind (.get_bind (.bind (.ofExcept fun _ h => h) fun popped _ => ?_)) fun width u => .get_bind ?_
  · obtain ⟨width, stack⟩ := popped
    exact .bind (.set _) fun _ _ => .pure width
  · have same : u.mended.width = u.width := rfl
    by_cases few : u.width < width
    · simp only [same, few, if_true]
      exact .throw _ _
    · simp only [same, few, if_false]
      exact .set _

theorem survives_split (f : Field) (keys : KeyMap) (choice : Choice) :
    s.Survives (split f keys choice) (split f keys choice) := by
  refine .get_bind ?_
  have same : s.mended.groupLimit = s.groupLimit := rfl
  by_cases full : s.groupLimit < choice.size + 1
  · simp only [same, full, if_true]
    exact .throw _ _
  · simp only [same, full, if_false]
    exact .bind (.set _) fun _ _ => .pure _

theorem survives_keep (keys : KeyMap) : s.Survives (keep keys) (keep keys) := by
  intro children t kept
  cases kept
  rfl

theorem survives_splitTopK (f : Field) (keys : KeyMap) (k : Nat) (sortStat : Stat) (bottom : Bool) :
    s.Survives (splitTopK f keys k sortStat bottom) (splitTopK f keys k sortStat bottom) :=
  .bind (survives_push s sortStat) fun ref t => .get_bind
    (.bind (survives_pop t) fun _ u => survives_split u f keys
      ((scores keys ref (t.cellTotals f)).map fun _ terms => Scored.best k bottom terms))

theorem survives_splitExplode (f : Field) (keys : KeyMap) :
    s.Survives (splitExplode f keys) (splitExplode f keys) :=
  .get_bind (survives_split s f keys (s.explosion f keys))

end Parts
end Session

open Session

theorem FieldGrouping.survives_regroup (g : FieldGrouping) (keys : KeyMap) (s : Session) :
    s.Survives (g.regroup keys) (g.regroup keys) := by
  unfold regroup
  cases g.mode with
  | topK k => exact survives_splitTopK s g.field keys k g.sortStat g.bottom
  | passthrough => exact survives_keep s keys
  | explode => exact survives_splitExplode s g.field keys

section Folds
variable {σ : Type} {sink : Sink σ} {deadline : Deadline} {s : Session} {fields : List Field}

/-- A fold over a stream of a session that succeeds has met no break. -/
theorem Sink.failAfter_of_result {start final : σ}
    (done : sink.result deadline (s.stream fields) start = .ok final) : s.failAfter = none := by
  obtain ⟨⟨records, whole⟩, -⟩ := result_none done
  exact failAfter_of_stream whole

theorem Sink.result_mended {start final : σ}
    (done : sink.result deadline (s.stream fields) start = .ok final) :
    sink.result .none (s.mended.stream fields) start = .ok final := by
  rw [mended_of_failAfter (failAfter_of_result done)]
  exact (result_none done).2

end Folds

namespace FieldGrouping
variable {g : FieldGrouping} {keys : KeyMap} {refs : List StatRef} {deadline : Deadline}

theorem listFrom_of_look {d d' : Deadline} (looks : d'.look = d.look) (keys : KeyMap)
    (refs : List StatRef) (seen : Nat) (stream : Stream) :
    listFrom keys refs d' seen stream = listFrom keys refs d seen stream := by
  have looked (seen : Nat) :
      (if d'.due seen then d'.check else .ok ()) = (if d.due seen then d.check else .ok ()) :=
    congrFun looks seen
  induction stream generalizing seen with
  | nil => rfl
  | cons item rest ih => simp only [listFrom, looked, ih]

theorem listFrom_whole (keys : KeyMap) (refs : List StatRef) (seen : Nat) (records : List Record) :
    listFrom keys refs .none seen (records.map .ok) = (records.filterMap (row? keys refs)).map .ok := by
  induction records generalizing seen with
  | nil => rfl
  | cons r rest ih =>
    have early : Deadline.none.due seen = false := rfl
    cases shown : row? keys refs r <;> simp [listFrom, early, shown, ih]

/-- A field grouping that lists no fault lists the same rows without interruption. -/
theorem on_collect_mended {s t : Session} {rows : List ResultRow}
    (collected : (g.collect keys refs deadline).on s = (.ok (rows.map .ok), t)) :
    (g.collect keys refs .none).on s.mended = (.ok (rows.map .ok), t.mended) := by
  unfold collect at collected ⊢
  by_cases empty : keys.isEmpty = true
  · rw [if_pos empty] at collected ⊢
    exact Survives.pure _ _ t collected
  · rw [if_neg empty] at collected ⊢
    cases mode : g.mode with
    | topK k =>
      simp only [mode] at collected ⊢
      obtain ⟨rows', u, selected, listed⟩ := Action.on_bind_eq_ok_iff.1 collected
      obtain ⟨ref, v, board, pushed, filled, popped, same⟩ := on_collectTopK_eq_ok_iff.1 selected
      have again := on_collectTopK_eq_ok_iff.2 ⟨ref, v.mended, board, survives_push s _ ref v pushed,
        Sink.result_mended filled, survives_pop v _ u popped, same⟩
      rw [Action.on_bind_ok again]
      exact Survives.pure _ _ t listed
    | passthrough =>
      simp only [mode] at collected ⊢
      have listed : listFrom keys refs deadline 0 (s.stream [g.field]) = rows.map .ok :=
        Except.ok.inj (congrArg Prod.fst collected)
      cases congrArg Prod.snd collected
      obtain ⟨records, whole, rfl⟩ := exists_records_of_listFrom listed
      rw [mended_of_failAfter (failAfter_of_stream whole), Action.on_bind_ok (Action.on_get _), whole,
        listFrom_whole]
      rfl
    | explode =>
      simp only [mode] at collected ⊢
      rw [Action.on_bind_ok (Action.on_get _), Action.on_ofExcept_bind_eq_ok_iff] at collected
      obtain ⟨rows', folded, listed⟩ := collected
      rw [Action.on_bind_ok (Action.on_get _), Action.on_ofExcept_bind_eq_ok_iff]
      exact ⟨rows', Sink.result_mended folded, Survives.pure _ _ t listed⟩

theorem collect_of_look {d d' : Deadline} (looks : d'.look = d.look) (g : FieldGrouping) (keys : KeyMap)
    (refs : List StatRef) : g.collect keys refs d' = g.collect keys refs d := by
  simp only [collect, collectTopK, listFrom_of_look looks, Sink.result_of_look looks]

end FieldGrouping

namespace PercentileGrouping
variable {g : PercentileGrouping} {keys : KeyMap} {refs : List StatRef} {deadline : Deadline}

theorem answerField_mended {s : Session} {countRef : StatRef} {counts : List Int64} {found found' : Found}
    {f : Field} (answered : g.answerField s keys countRef counts deadline found f = .ok found') :
    g.answerField s.mended keys countRef counts .none found f = .ok found' := by
  unfold answerField at answered ⊢
  obtain ⟨trackers, folded, entered⟩ := Outcome.bind_eq_ok_iff.1 answered
  exact Outcome.bind_eq_ok_iff.2 ⟨trackers, Sink.result_mended folded, entered⟩

theorem answer_mended {s : Session} {countRef : StatRef} {found : Found}
    (answered : g.answer s keys countRef deadline = .ok found) :
    g.answer s.mended keys countRef .none = .ok found := by
  unfold answer at answered ⊢
  obtain ⟨totals, counted, answered⟩ := Outcome.bind_eq_ok_iff.1 answered
  refine Outcome.bind_eq_ok_iff.2 ⟨totals, counted, ?_⟩
  exact Outcome.foldlM_eq_ok_of_imp (fun _ _ _ => answerField_mended) answered

theorem on_collect_mended {s t : Session} {listed : List (Except Fault ResultRow)}
    (collected : (g.collect keys refs deadline).on s = (.ok listed, t)) :
    (g.collect keys refs .none).on s.mended = (.ok listed, t.mended) := by
  obtain ⟨countRef, u, found, ordinary, pushed, answered, popped, summed, same⟩ :=
    on_collect_eq_ok_iff.1 collected
  exact on_collect_eq_ok_iff.2 ⟨countRef, u.mended, found, ordinary, survives_push s _ countRef u pushed,
    answer_mended answered, survives_pop u _ t popped, summed, same⟩

theorem collect_of_look {d d' : Deadline} (looks : d'.look = d.look) (g : PercentileGrouping)
    (keys : KeyMap) (refs : List StatRef) : g.collect keys refs d' = g.collect keys refs d := by
  have each (s : Session) (countRef : StatRef) (counts : List Int64) :
      g.answerField s keys countRef counts d' = g.answerField s keys countRef counts d := by
    funext found f
    simp only [answerField, Sink.result_of_look looks]
  simp only [collect, answer, each]

end PercentileGrouping

namespace Grouping
variable {keys : KeyMap} {refs : List StatRef} {deadline : Deadline}

theorem survives_regroup (g : Grouping) (keys : KeyMap) (s : Session) :
    s.Survives (g.regroup keys) (g.regroup keys) := by
  cases g with
  | field f => exact f.survives_regroup keys s
  | percentile p => exact .throw _ _
  | diff d => exact .throw _ _

/-- A grouping that lists no fault lists the same rows without interruption. -/
theorem on_collect_mended {g : Grouping} {s t : Session} {rows : List ResultRow}
    (collected : (g.collect keys refs deadline).on s = (.ok (rows.map .ok), t)) :
    (g.collect keys refs .none).on s.mended = (.ok (rows.map .ok), t.mended) := by
  unfold collect at collected ⊢
  rw [Action.on_bind_ok (Action.on_get _)] at collected ⊢
  obtain ⟨_, u, checked, collected⟩ := Action.on_bind_eq_ok_iff.1 collected
  rw [Action.on_forM_ofExcept] at checked
  cases congrArg Prod.snd checked
  have passed : refs.forM s.mended.stack.requireValid = .ok () := congrArg Prod.fst checked
  have again := (Action.on_forM_ofExcept refs s.mended.stack.requireValid s.mended).trans
    (congrArg (·, s.mended) passed)
  rw [Action.on_bind_ok again]
  cases g with
  | field f => exact FieldGrouping.on_collect_mended collected
  | percentile p => exact PercentileGrouping.on_collect_mended collected
  | diff d => cases collected

theorem collect_of_look {d d' : Deadline} (looks : d'.look = d.look) (g : Grouping) (keys : KeyMap)
    (refs : List StatRef) : g.collect keys refs d' = g.collect keys refs d := by
  cases g with
  | field f => simp only [collect, f.collect_of_look looks]
  | percentile p => simp only [collect, p.collect_of_look looks]
  | diff d => rfl

end Grouping

namespace Query
variable {deadline : Deadline}

theorem survives_pushAll (columns : List (String × Stat)) (s : Session) :
    s.Survives (pushAll columns) (pushAll columns) := by
  induction columns generalizing s with
  | nil => exact .pure []
  | cons column rest ih =>
    obtain ⟨name, stat⟩ := column
    exact .bind (survives_push s stat) fun ref t => .bind (ih t) fun refs _ => .pure _

theorem survives_unwind (n : Nat) (s : Session) : s.Survives (unwind n) (unwind n) := by
  induction n generalizing s with
  | zero => exact .pure ()
  | succ n ih => exact .bind (survives_pop s) fun _ t => ih t

theorem survives_regroupAll (deadline : Deadline) (groupings : List Grouping) (keys : KeyMap)
    (s : Session) :
    s.Survives (regroupAll deadline groupings keys) (regroupAll .none groupings keys) := by
  induction groupings generalizing keys s with
  | nil => exact .pure keys
  | cons g rest ih =>
    have staged : s.Survives (Action.beside (Stage.new g) (Stage.regroup keys))
        (Action.beside (Stage.new g) (Stage.regroup keys)) := by
      intro children t regrouped
      rw [Stage.on_beside_regroup] at regrouped ⊢
      exact g.survives_regroup keys s children t regrouped
    exact .bind staged fun children t => .bind (.ofExcept fun _ _ => rfl) fun _ u => ih children u

/-- A run that succeeds has listed no fault, so nothing interrupted it. -/
theorem survives_run (q : Query) (deadline : Deadline) (s : Session) :
    s.Survives (q.run deadline) (q.run .none) := by
  unfold run
  refine .bind (.ofExcept fun _ h => h) fun layout t => .bind (survives_pushAll q.stats t) fun refs u => ?_
  cases q.groupings.getLast? with
  | none => exact .get_bind (.bind (.ofExcept fun _ h => h) fun rows _ => .pure _)
  | some last =>
    refine .bind (survives_regroupAll deadline _ _ u) fun keys v => ?_
    intro table w ran
    obtain ⟨listed, w', collected, ran⟩ := Action.on_bind_eq_ok_iff.1 ran
    rw [Action.on_ofExcept_bind_eq_ok_iff] at ran
    obtain ⟨rows, assembled, tabled⟩ := ran
    rw [assemble_eq_ok_iff.1 assembled, Stage.on_beside_collect] at collected
    have again := (Stage.on_beside_collect last keys refs .none v.mended).trans
      (Grouping.on_collect_mended collected)
    rw [Action.on_bind_ok again, Action.on_ofExcept_bind_eq_ok_iff]
    exact ⟨rows, assemble_ok rows, Survives.pure _ _ w tabled⟩

theorem regroupAll_of_inTime (inTime : deadline.missed = false) (groupings : List Grouping)
    (keys : KeyMap) : regroupAll deadline groupings keys = regroupAll .none groupings keys := by
  induction groupings generalizing keys with
  | nil => rfl
  | cons g rest ih =>
    have check : Deadline.none.check = .ok () := rfl
    simp only [regroupAll, ih, Deadline.check_of_inTime inTime, check]

theorem run_of_inTime (inTime : deadline.missed = false) (q : Query) :
    q.run deadline = q.run .none := by
  simp only [run, regroupAll_of_inTime inTime, Stage.collect, Grouping.collect_of_look (Deadline.look_of_inTime inTime)]

/-- There are no partial results: a query that succeeds, whatever break of the streams is planned and
whatever the time limit, yields the same table when neither is there. A time limit that does not pass makes no
difference at all, however often the clock is looked at. -/
theorem execute_uninterrupted (q : Query) {settings : Settings} (valid : settings.validate = .ok ())
    (s : Session) :
    (∀ table t, (q.execute settings).on s = (.ok table, t) →
      (q.execute settings.untimed).on s.mended = (.ok table, t.mended)) ∧
    ((∀ limit, settings.timeout = some limit → 0 < limit) →
      (q.execute settings).on s = (q.execute settings.untimed).on s) := by
  have validUntimed : settings.untimed.validate = .ok () := by
    by_cases none : settings.groupLimit = 0
    · rw [Settings.validate, if_pos none] at valid
      cases valid
    · simp [Settings.validate, Settings.untimed, none]
  refine ⟨fun table t executed => ?_, fun positive => ?_⟩
  · obtain ⟨-, u, ran, unwound⟩ := on_execute_eq_ok_iff.1 executed
    refine on_execute_eq_ok_iff.2 ⟨validUntimed, u.mended, ?_, survives_unwind _ u () t unwound⟩
    exact survives_run q _ s table u ran
  · have inTime : (Deadline.ofSettings settings).missed = false := by
      cases limited : settings.timeout with
      | none => simp [Deadline.ofSettings, limited, Deadline.missed, Deadline.none]
      | some limit =>
        have below := positive limit limited
        simp [Deadline.ofSettings, limited, Deadline.missed, Deadline.after]
        omega
    have untimed : Deadline.ofSettings settings.untimed = .none := rfl
    simp only [execute, valid, validUntimed, untimed, run_of_inTime inTime]

/-- A session whose streams break at once. -/
def broken : Session := { receipts with failAfter := some 0 }

/-- A last grouping that asks for no percentile and so opens no stream. -/
def unasked : Query := ⟨[("receipts", .count)], [.percentile ⟨.count, []⟩]⟩

/-- A time limit that is looked at before every record and does not pass. -/
def patient : Settings := { Settings.standard with timeout := some 60000, checkInterval := 1 }

theorem execute_uninterrupted_of_unasked : hurried.validate = .ok () ∧ patient.validate = .ok () ∧
    (∃ table t, (unasked.execute hurried).on broken = (.ok table, t) ∧
      table = ⟨["receipts"], [⟨.root, [3]⟩]⟩ ∧
      (unasked.execute hurried.untimed).on receipts = (.ok table, t.mended)) ∧
    (((prices 2).execute hurried).on receipts).1 = .error .deadlineExceeded ∧
    ((prices 2).execute patient).on broken = ((prices 2).execute patient.untimed).on broken ∧
    ((((prices 2).execute patient.untimed).on broken).1.toBool = false) := by
  have hurriedValid : hurried.validate = .ok () := rfl
  have patientValid : patient.validate = .ok () := rfl
  refine ⟨hurriedValid, patientValid, ?_, by decide +kernel, ?_, by decide +kernel⟩
  · have outcome : ((unasked.execute hurried).on broken).1 = .ok ⟨["receipts"], [⟨.root, [3]⟩]⟩ := by
      decide +kernel
    obtain ⟨t, executed⟩ := Action.exists_on_eq outcome
    exact ⟨_, t, executed, rfl, (execute_uninterrupted unasked hurriedValid broken).1 _ t executed⟩
  · apply (execute_uninterrupted (prices 2) patientValid broken).2
    intro limit limited
    cases limited
    exact Nat.succ_pos _

end Query
end Rollup
