import Rollup.Grouping.Collect
import Rollup.Proofs.Session.Scores
import Rollup.Proofs.Stream.Crossing

namespace Rollup
open Number.Binary64

/-- The integer terms of a group in their order, each with its count. -/
def Session.countedTerms (countRef : StatRef) (f : Field) (group : GroupId) (s : Session) :
    List (Int64 × Int64) :=
  ((s.fieldRecords f.asInt).filter (·.group = group)).filterMap (Record.counted? countRef)

/-- With a count statistic on top they are the integer terms of the group, each with its total. -/
theorem Session.countedTerms_pushed {s : Session} (inStep : s.InStep) (stat : Stat) (f : Field)
    (group : GroupId) :
    (s.pushed stat).countedTerms (s.stack.push stat.shape).1 f group =
      (s.scored f.asInt stat group).filterMap fun a => a.term.counted? a.score := by
  have pairs := map_cellTotals_pushed inStep f.asInt stat group fun score t => t.counted? score
  have records : (s.pushed stat).countedTerms (s.stack.push stat.shape).1 f group =
      ((((s.pushed stat).cellTotals f.asInt).toList.filter (·.1.group = group)).map
        fun e => e.1.term.counted? ((s.stack.push stat.shape).1.read e.2)).filterMap id := by
    rw [countedTerms, fieldRecords, List.filter_map, List.filterMap_map, List.filterMap_map]
    rfl
  rw [records, pairs, List.filterMap_map]
  rfl

/-- The term that crosses a target; the last one where none does, and zero where there is none. -/
def Tracker.answer (target : Float) (counts : List (Int64 × Int64)) : Int64 :=
  (crossing target 0 counts none).getD ((counts.getLast?.map (·.1)).getD 0)

/-- The percentile of a group that counts `total` documents. -/
def PercentileQuery.answer (countRef : StatRef) (s : Session) (total : Int64) (group : GroupId)
    (q : PercentileQuery) : Int64 :=
  Tracker.answer (q.percentile / 100 * ofInt64 total) (s.countedTerms countRef q.field group)

/-- Targets that are reached alike are crossed by the same terms. -/
theorem Tracker.answer_congr {target target' : Float}
    (alike : ∀ before after, reaches before after target' = reaches before after target) :
    answer target' = answer target := by
  have crossings (before : Int64) (counts : List (Int64 × Int64)) (found : Option Int64) :
      crossing target' before counts found = crossing target before counts found := by
    induction counts generalizing before found with
    | nil => rfl
    | cons c rest ih =>
      obtain ⟨term, n⟩ := c
      rw [crossing, crossing, alike, ih]
  funext counts
  rw [answer, answer, crossings]

/-- No target of zero is ever reached by counting, whatever its sign. -/
theorem Tracker.reaches_of_zero {target : Float} (zero : target = 0 ∨ target = -0) (before after : Int64) :
    reaches before after target = reaches before after 0 := by
  have fields : (0 : Float).isNaN = false ∧ (-0 : Float).isNaN = false ∧ level (-0) = level 0 := by
    decide +kernel
  obtain ⟨number, number', same⟩ := fields
  rcases zero with rfl | rfl
  · rfl
  · simp only [reaches, lt_iff (isNaN_ofInt64 _) number, lt_iff (isNaN_ofInt64 _) number',
      le_iff number (isNaN_ofInt64 _), le_iff number' (isNaN_ofInt64 _), same]

/-- The answer depends on the percentile as a number and on the name of the field. -/
theorem PercentileQuery.answer_congr {q q' : PercentileQuery} (name : q'.field.name = q.field.name)
    (percentile : (q'.percentile == q.percentile) = true) (countRef : StatRef) (s : Session) (total : Int64)
    (group : GroupId) : q'.answer countRef s total group = q.answer countRef s total group := by
  have field : q'.field.asInt = q.field.asInt := congrArg (Field.mk · .int) name
  have targets : Tracker.answer (q'.percentile / 100 * ofInt64 total) =
      Tracker.answer (q.percentile / 100 * ofInt64 total) := by
    rcases eq_or_zero_of_beq percentile with same | ⟨zero', zero⟩
    · rw [same]
    · have hundredth {x : Float} (zero : x = 0 ∨ x = -0) : x / 100 = 0 ∨ x / 100 = -0 := by
        rcases zero with rfl | rfl <;> decide +kernel
      have finite := (ofInt64_bounded total).1
      refine Tracker.answer_congr fun before after => ?_
      rw [Tracker.reaches_of_zero (mul_of_zero (hundredth zero') finite),
        Tracker.reaches_of_zero (mul_of_zero (hundredth zero) finite)]
  rw [answer, answer, targets, Session.countedTerms, Session.countedTerms, field]

namespace PercentileGrouping

/-- The queries on a field. -/
def queriesOn (f : Field) (g : PercentileGrouping) : List PercentileQuery :=
  g.queries.filter (·.field == f)

theorem mem_queriesOn_iff (g : PercentileGrouping) (f : Field) (q : PercentileQuery) :
    q ∈ g.queriesOn f ↔ q ∈ g.queries ∧ q.field = f := by
  rw [queriesOn, List.mem_filter, beq_iff_eq]

theorem mem_flatMap_queriesOn_iff (g : PercentileGrouping) (q : PercentileQuery) :
    q ∈ g.fields.flatMap g.queriesOn ↔ q ∈ g.queries := by
  rw [List.mem_flatMap]
  constructor
  · intro h
    obtain ⟨f, -, onField⟩ := h
    exact ((g.mem_queriesOn_iff f q).1 onField).1
  · intro queried
    refine ⟨q.field, ?_, (g.mem_queriesOn_iff q.field q).2 ⟨queried, rfl⟩⟩
    rw [fields, List.mem_eraseDups]
    exact List.mem_map_of_mem queried

/-- What is entered for a group is entered into its cells only. -/
theorem get?_enter (queries : List PercentileQuery) (answers : Table GroupId (List Int64)) (found : Found)
    (group : GroupId) :
    (enter queries answers found).get? group =
      match answers.get? group with
      | none => found.get? group
      | some values => some ((values.zip queries).foldl
          (fun cells c => cells.insert c.2.position c.1) ((found.get? group).getD .empty)) := by
  have updated := Table.get?_foldl_toList answers
    (fun (e : GroupId × List Int64) (old : Option (Table Nat Int64)) =>
      (e.2.zip queries).foldl (fun cells c => cells.insert c.2.position c.1) (old.getD .empty))
    found group
  rw [enter, updated]
  cases answers.get? group with
  | none => rfl
  | some values => rfl

theorem foldl_zip_map (queries : List PercentileQuery) (value : PercentileQuery → Int64)
    (cells : Table Nat Int64) :
    ((queries.map value).zip queries).foldl (fun cells c => cells.insert c.2.position c.1) cells =
      queries.foldl (fun cells q => cells.insert q.position (value q)) cells := by
  induction queries generalizing cells with
  | nil => rfl
  | cons q rest ih => exact ih (cells.insert q.position (value q))

section Answers
variable {g : PercentileGrouping} {s : Session} {keys : KeyMap} {countRef : StatRef}
  {counts : List Int64} {deadline : Deadline}

/-- The trackers after the stream of a field. -/
def trackers (g : PercentileGrouping) (s : Session) (keys : KeyMap) (countRef : StatRef)
    (counts : List Int64) (f : Field) : Table GroupId Tracker :=
  (s.fieldRecords f.asInt).foldl (Crossing.seeRecord countRef)
    (Crossing.start (targets keys counts ((g.queriesOn f).map (·.percentile))))

/-- The stream of a field is read as a whole, or there are no answers. -/
theorem eq_enter_of_answerField {found found' : Found} {f : Field}
    (answered : g.answerField s keys countRef counts deadline found f = .ok found') :
    found' = enter (g.queriesOn f) (Crossing.answers (g.trackers s keys countRef counts f)) found := by
  unfold answerField at answered
  rw [Outcome.bind_eq_ok_iff] at answered
  obtain ⟨seen, folded, entered⟩ := answered
  have accepts (r : Record) (t t' : Table GroupId Tracker)
      (accepted : ((Crossing.sink countRef).accept r).on t = (.ok (), t')) :
      t' = Crossing.seeRecord countRef t r := by
    unfold Sink.accept at accepted
    unfold Crossing.seeRecord
    cases term : r.term with
    | int v =>
      rw [term] at accepted
      exact (congrArg Prod.snd accepted).symm
    | text v =>
      rw [term] at accepted
      cases accepted
  obtain ⟨records, whole, seen_eq⟩ := Sink.exists_records_of_result accepts folded
  rw [Session.eq_fieldRecords_of_stream whole] at seen_eq
  cases entered
  rw [seen_eq]
  rfl

section Undisturbed
variable (sound : s.failAfter = none) (inTime : deadline.missed = false)
include sound inTime

/-- A stream of integers that nothing breaks off answers the queries of its field. -/
theorem answerField_eq (g : PercentileGrouping) (keys : KeyMap) (countRef : StatRef) (counts : List Int64)
    (found : Found) (f : Field) :
    g.answerField s keys countRef counts deadline found f =
      .ok (enter (g.queriesOn f) (Crossing.answers (g.trackers s keys countRef counts f)) found) := by
  have integers : ∀ r ∈ s.fieldRecords f.asInt, ∃ v, r.term = .int v :=
    fun _ member => Session.yields_of_mem_fieldRecords member
  unfold answerField
  rw [Session.stream_of_failAfter sound]
  dsimp only
  rw [Crossing.result_sink _ inTime integers]
  rfl

/-- Then there are answers, whatever is asked. -/
theorem exists_answer (g : PercentileGrouping) (keys : KeyMap) {countRef : StatRef} {totals : List Float}
    (counted : s.groupStats countRef = .ok totals) :
    ∃ found, g.answer s keys countRef deadline = .ok found := by
  have each (fields : List Field) (found : Found) :
      ∃ found', fields.foldlM (g.answerField s keys countRef (totals.map round) deadline) found =
        .ok found' := by
    induction fields generalizing found with
    | nil => exact ⟨found, rfl⟩
    | cons f rest ih =>
      rw [List.foldlM_cons, answerField_eq sound inTime]
      exact ih _
  unfold answer
  rw [counted]
  exact each g.fields _

end Undisturbed

/-- In each group of the key map every query on a field has its own answer. -/
theorem get?_answers {group : GroupId} {key : Key} (member : keys.get? group = some key) (f : Field) :
    (Crossing.answers (g.trackers s keys countRef counts f)).get? group =
      some ((g.queriesOn f).map (·.answer countRef s (counts.getD group 0) group)) := by
  have start : (Crossing.start (targets keys counts ((g.queriesOn f).map (·.percentile)))).get? group =
      some (.start ((g.queriesOn f).map fun q => q.percentile / 100 * ofInt64 (counts.getD group 0))) := by
    rw [Crossing.start, Table.get?_map, targets, Table.get?_map, member]
    simp only [Option.map_some, List.map_map]
    rfl
  rw [Crossing.answers, Table.get?_map, trackers, Crossing.get?_foldl_seeRecord, start, Option.map_some,
    Option.map_some]
  have each := Tracker.answers_foldl_see (s.countedTerms countRef f group)
    ((g.queriesOn f).map fun q => q.percentile / 100 * ofInt64 (counts.getD group 0))
  rw [List.map_map] at each
  refine congrArg some (each.trans (List.map_congr_left ?_))
  intro q onField
  rw [PercentileQuery.answer, ((g.mem_queriesOn_iff f q).1 onField).2]
  rfl

/-- Field after field, each query on it is entered at its position. -/
theorem get?_foldl_enter {group : GroupId} {key : Key} (member : keys.get? group = some key)
    (fields : List Field) {found : Found} {cells : Table Nat Int64}
    (here : found.get? group = some cells) :
    (fields.foldl (fun found f =>
        enter (g.queriesOn f) (Crossing.answers (g.trackers s keys countRef counts f)) found) found).get?
          group =
      some ((fields.flatMap g.queriesOn).foldl (fun cells q =>
        cells.insert q.position (q.answer countRef s (counts.getD group 0) group)) cells) := by
  induction fields generalizing found cells with
  | nil => exact here
  | cons f rest ih =>
    have next : (enter (g.queriesOn f) (Crossing.answers (g.trackers s keys countRef counts f))
        found).get? group =
        some ((g.queriesOn f).foldl (fun cells q =>
          cells.insert q.position (q.answer countRef s (counts.getD group 0) group)) cells) := by
      rw [get?_enter, get?_answers member f, here]
      exact congrArg some (foldl_zip_map _ _ _)
    rw [List.foldl_cons, ih next, List.flatMap_cons, List.foldl_append]

/-- The cells found for a group are the answers to the queries, each at its position. -/
theorem cells_of_answer {found : Found} (distinct : (g.queries.map (·.position)).Nodup)
    (answered : g.answer s keys countRef deadline = .ok found) :
    ∃ totals, s.groupStats countRef = .ok totals ∧ ∀ (group : GroupId) (key : Key),
      keys.get? group = some key → ∃ cells, found.get? group = some cells ∧
        ∀ (x : Nat) (v : Int64), cells.get? x = some v ↔ ∃ q ∈ g.queries, q.position = x ∧
          q.answer countRef s ((totals.map round).getD group 0) group = v := by
  unfold answer at answered
  rw [Outcome.bind_eq_ok_iff] at answered
  obtain ⟨totals, counted, folded⟩ := answered
  refine ⟨totals, counted, fun group key member => ?_⟩
  have start : (keys.map fun _ _ => (Table.empty : Table Nat Int64)).get? group = some .empty := by
    rw [Table.get?_map, member]
    rfl
  rw [Outcome.eq_foldl_of_foldlM (fun _ _ _ => eq_enter_of_answerField) folded]
  refine ⟨_, get?_foldl_enter member g.fields start, fun x v => ?_⟩
  rw [Table.get?_foldl_insert_eq_some_iff]
  · simp only [mem_flatMap_queriesOn_iff]
  · intro q onFields q' onFields' same
    have queried := (g.mem_flatMap_queriesOn_iff q).1 onFields
    have queried' := (g.mem_flatMap_queriesOn_iff q').1 onFields'
    rw [List.inj_on_of_nodup_map distinct queried' queried same]

end Answers

end PercentileGrouping
end Rollup
