import Rollup.Proofs.Grouping.Answers
import Rollup.Proofs.Grouping.Measure
import Rollup.Proofs.Output.Layout

namespace Rollup
open Number.Binary64

namespace Session

/-- The groups of a key map that get a row of percentiles, in ascending order of their ids. -/
def listed (keys : KeyMap) (s : Session) : List (GroupId × Key) :=
  keys.toList.filter fun e => 0 < e.1 && e.1 < Nat.min s.groupCount PercentileGrouping.idBound

theorem mem_listed_iff {keys : KeyMap} {s : Session} {e : GroupId × Key} :
    e ∈ s.listed keys ↔
      e ∈ keys.toList ∧ 0 < e.1 ∧ e.1 < s.groupCount ∧ e.1 < PercentileGrouping.idBound := by
  rw [listed, List.mem_filter, Bool.and_eq_true, decide_eq_true_iff, decide_eq_true_iff, Nat.lt_min]

theorem getD_round_groupStats {s : Session} {ref : StatRef} {totals : List Float}
    (found : s.groupStats ref = .ok totals) (g : GroupId) :
    (totals.map round).getD g 0 = round (s.groupValue g ref) := by
  have zero : Number.Binary64.round 0 = 0 := by decide +kernel
  rw [← getD_groupStats found g, List.getD_eq_getElem?_getD, List.getD_eq_getElem?_getD,
    List.getElem?_map, ← zero, Option.getD_map]

end Session

namespace PercentileGrouping
variable {g : PercentileGrouping} {keys : KeyMap} {refs : List StatRef} {deadline : Deadline}
  {s t : Session}

/-- The percentile that a group shows for a query, counted by the count statistic on top of the session. -/
def percentile (g : PercentileGrouping) (s : Session) (group : GroupId) (q : PercentileQuery) : Float :=
  match (Session.push g.countStat).on s with
  | (.ok countRef, u) => ofInt64 (q.answer countRef u (round (u.groupValue group countRef)) group)
  | (.error _, _) => 0

/-- The percentile of a group by its documents: the terms are counted by the totals of the count statistic. -/
theorem percentile_eq (inStep : s.InStep) (built : g.countStat.Built) {countRef : StatRef} {u : Session}
    (pushed : (Session.push g.countStat).on s = (.ok countRef, u)) {group : GroupId}
    (inRange : group < s.groupCount) (q : PercentileQuery) :
    g.percentile s group q = ofInt64 (Tracker.answer
      (q.percentile / 100 * ofInt64 (round (g.countStat.total (s.members group))))
      ((s.scored q.field.asInt g.countStat group).filterMap fun a => a.term.counted? a.score)) := by
  obtain ⟨rfl, rfl⟩ := Session.eq_pushed_of_on_push inStep built pushed
  have total : (s.pushed g.countStat).groupValue group (s.stack.push g.countStat.shape).1 =
      g.countStat.total (s.members group) :=
    (if_pos inRange).trans (Session.total_members_pushed inStep g.countStat group)
  rw [percentile, pushed]
  simp only [PercentileQuery.answer, total, Session.countedTerms_pushed inStep]

/-- Collecting pushes the count statistic, finds the percentiles and pops again before it reads the values. -/
theorem on_collect_eq_ok_iff {listed : List (Except Fault ResultRow)} :
    (g.collect keys refs deadline).on s = (.ok listed, t) ↔
      ∃ countRef u found ordinary, (Session.push g.countStat).on s = (.ok countRef, u) ∧
        g.answer u keys countRef deadline = .ok found ∧ Session.pop.on u = (.ok (), t) ∧
        refs.mapM t.groupStats = .ok ordinary ∧ listed = (g.rows t keys found ordinary).map .ok := by
  rw [collect_eq, Action.on_bind_eq_ok_iff]
  constructor
  · intro h
    obtain ⟨found, t', measured, tabulated⟩ := h
    obtain ⟨countRef, u, pushed, answered, popped⟩ := Session.on_measure_eq_ok_iff.1 measured
    rw [Action.on_bind_ok (Action.on_get t'), Action.on_ofExcept, Prod.mk.injEq] at tabulated
    obtain ⟨shown, rfl⟩ := tabulated
    obtain ⟨ordinary, summed, rfl⟩ := Outcome.map_eq_ok_iff.1 shown
    exact ⟨countRef, u, found, ordinary, pushed, answered, popped, summed, rfl⟩
  · intro h
    obtain ⟨countRef, u, found, ordinary, pushed, answered, popped, summed, rfl⟩ := h
    refine ⟨found, t, Session.on_measure_eq_ok_iff.2 ⟨countRef, u, pushed, answered, popped⟩, ?_⟩
    rw [Action.on_bind_ok (Action.on_get t), tabulate, summed]
    rfl

/-- The answers to the queries stand at their positions, and the other values in their order. -/
theorem laidOut_percentileRow {queries : List PercentileQuery} {answer : PercentileQuery → Int64}
    {cells : Table Nat Int64} {values : List Float} (distinct : (queries.map (·.position)).Nodup)
    (within : ∀ q ∈ queries, q.position < values.length + queries.length)
    (placed : ∀ (x : Nat) (v : Int64), cells.get? x = some v ↔
      ∃ q ∈ queries, q.position = x ∧ answer q = v) :
    LaidOut (queries.map fun q => (q.position, ofInt64 (answer q))) values
      (percentileRow (values.length + queries.length) cells values) := by
  let shown := queries.map fun q => (q.position, ofInt64 (answer q))
  have length : shown.length = queries.length := List.length_map _
  have positions : (shown.map (·.1)).Nodup := by
    rw [List.map_map]
    exact distinct
  have inside : ∀ p ∈ shown, p.1 < values.length + shown.length := by
    intro p member
    obtain ⟨q, queried, rfl⟩ := List.mem_map.1 member
    rw [length]
    exact within q queried
  have entered (x : Nat) (v : Float) :
      (cells.map fun _ v => ofInt64 v).get? x = some v ↔ (x, v) ∈ shown := by
    rw [Table.get?_map, Option.map_eq_some_iff, List.mem_map]
    simp only [placed]
    constructor
    · intro h
      obtain ⟨w, ⟨q, queried, rfl, rfl⟩, rfl⟩ := h
      exact ⟨q, queried, rfl⟩
    · intro h
      obtain ⟨q, queried, same⟩ := h
      cases same
      exact ⟨answer q, ⟨q, queried, rfl, rfl⟩, rfl⟩
  rw [percentileRow, ← length]
  exact laidOut_splice positions inside entered fun _ => 0

/-- What a row of a percentile grouping is to show for a group: the group's key, the percentiles of the group
at the positions of their queries, and its values in their order beside them. -/
structure Shows (g : PercentileGrouping) (s : Session) (refs : List StatRef) (e : GroupId × Key)
    (row : ResultRow) : Prop where
  key : row.key = e.2
  values : LaidOut (g.queries.map fun q => (q.position, g.percentile s e.1 q))
    (refs.map (s.groupValue e.1)) row.values

theorem rows_eq_map_listed (g : PercentileGrouping) (s : Session) (keys : KeyMap) (found : Found)
    (ordinary : List (List Float)) :
    g.rows s keys found ordinary = (s.listed keys).map fun e =>
      ⟨e.2, percentileRow (ordinary.length + g.queries.length) ((found.get? e.1).getD .empty)
        (ordinary.map (·.getD e.1 0))⟩ := by
  rw [Session.listed, ← List.filterMap_eq_map, List.filterMap_filter]
  rfl

/-- Every listed group has a row, with the percentiles as they are counted on top of the session and the values
as they are read once the count statistic is popped again. -/
theorem laidOut_of_on_collect (distinct : (g.queries.map (·.position)).Nodup)
    (within : ∀ q ∈ g.queries, q.position < refs.length + g.queries.length) {outcome : List (Except Fault ResultRow)}
    (collected : (g.collect keys refs deadline).on s = (.ok outcome, t)) :
    ∃ countRef u rows, (Session.push g.countStat).on s = (.ok countRef, u) ∧ Session.pop.on u = (.ok (), t) ∧
      outcome = rows.map .ok ∧
      List.Forall₂ (fun e row => row.key = e.2 ∧
        LaidOut (g.queries.map fun q => (q.position, g.percentile s e.1 q)) (refs.map (t.groupValue e.1))
          row.values) (t.listed keys) rows := by
  obtain ⟨countRef, u, found, ordinary, pushed, answered, popped, summed, rfl⟩ := on_collect_eq_ok_iff.1 collected
  refine ⟨countRef, u, _, pushed, popped, rfl, ?_⟩
  rw [rows_eq_map_listed, List.forall₂_map_right_iff]
  refine List.forall₂_same.2 ?_
  intro e entry
  obtain ⟨id, key⟩ := e
  obtain ⟨member, -⟩ := Session.mem_listed_iff.1 entry
  have values : ordinary.map (·.getD id 0) = refs.map (t.groupValue id) :=
    Session.map_getD_of_mapM_groupStats summed id
  have length : ordinary.length = refs.length := (Outcome.mapM_eq_ok_iff.1 summed).length_eq.symm
  obtain ⟨totals, counted, each⟩ := cells_of_answer distinct answered
  obtain ⟨cells, entered, placed⟩ := each id key ((keys.mem_toList_iff id key).1 member)
  rw [Session.getD_round_groupStats counted id] at placed
  have fits : ∀ q ∈ g.queries,
      q.position < (refs.map (t.groupValue id)).length + g.queries.length := by
    rw [List.length_map]
    exact within
  have laid := laidOut_percentileRow distinct fits placed
  rw [List.length_map] at laid
  refine ⟨rfl, ?_⟩
  simp only [percentile, pushed, entered, Option.getD_some, values, length]
  exact laid

section Positions
variable (inStep : s.InStep) (distinct : (g.queries.map (·.position)).Nodup)
  (within : ∀ q ∈ g.queries, q.position < refs.length + g.queries.length)
include inStep distinct within

/-- The rows of a percentile grouping show what they are to, one listed group after the other. -/
theorem shows_of_on_collect {outcome : List (Except Fault ResultRow)}
    (collected : (g.collect keys refs deadline).on s = (.ok outcome, t)) :
    ∃ rows, outcome = rows.map .ok ∧ List.Forall₂ (g.Shows s refs) (s.listed keys) rows := by
  obtain ⟨countRef, u, rows, pushed, popped, rfl, each⟩ := laidOut_of_on_collect distinct within collected
  obtain ⟨-, entries, loaded, rfl⟩ := Session.eq_loaded_of_on_push pushed
  rw [Session.on_pop_loaded inStep.slots loaded] at popped
  cases popped
  exact ⟨rows, rfl, each.imp fun _ _ here => ⟨here.1, here.2⟩⟩

/-- Without a planned break or a missed deadline, collecting comes to one of three ends: the count statistic
cannot be pushed, a value cannot be read, or every listed group has a row that shows what it is to. -/
theorem on_collect_shows (sound : s.failAfter = none) (inTime : deadline.missed = false) (keys : KeyMap) :
    match s.evaluated g.countStat with
    | .error e => (g.collect keys refs deadline).on s = (.error e, s)
    | .ok _ =>
      match refs.mapM s.groupStats with
      | .error e => (g.collect keys refs deadline).on s = (.error e, s.restamped g.countStat.width)
      | .ok _ => ∃ rows, (g.collect keys refs deadline).on s =
          (.ok (rows.map .ok), s.restamped g.countStat.width) ∧
            List.Forall₂ (g.Shows s refs) (s.listed keys) rows := by
  cases values : s.evaluated g.countStat with
  | error e =>
    rw [collect_eq, Action.on_bind_error (Session.on_measure_of_error _ values)]
  | ok entries =>
    have raised := Session.raised_loaded (Session.loaded_of_evaluated values)
    obtain ⟨totals, counted, -⟩ := Session.groupStats_eq_ok (raised.inStep inStep)
      (s.stack.isValid_push g.countStat.shape)
    have unbroken : (s.loaded g.countStat entries).failAfter = none := sound
    obtain ⟨found, answered⟩ := exists_answer unbroken inTime g keys counted
    have measured := Session.on_measure (fun countRef s => g.answer s keys countRef deadline) inStep values
    rw [answered] at measured
    have collected : (g.collect keys refs deadline).on s =
        (g.tabulate keys refs found (s.restamped g.countStat.width), s.restamped g.countStat.width) := by
      rw [collect_eq, Action.on_bind_ok measured, Action.on_bind_ok (Action.on_get _), Action.on_ofExcept]
    have same : (s.restamped g.countStat.width).groupStats = s.groupStats := rfl
    rw [tabulate, same] at collected
    cases summed : refs.mapM s.groupStats with
    | error e =>
      rw [summed] at collected
      exact collected
    | ok ordinary =>
      rw [summed] at collected
      obtain ⟨rows, listed, each⟩ := shows_of_on_collect inStep distinct within collected
      exact ⟨rows, collected.trans (congrArg (fun l => (Except.ok l, s.restamped g.countStat.width)) listed),
        each⟩

end Positions

end PercentileGrouping
end Rollup
