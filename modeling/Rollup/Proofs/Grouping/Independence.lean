import Rollup.Proofs.Grouping.PercentileRows

namespace Rollup.PercentileGrouping
variable {g g' : PercentileGrouping} {s : Session} {refs : List StatRef}

/-- The percentile of a group is that of any query on the field of this name at this percentile, in any grouping
that counts alike. -/
theorem percentile_congr (counts : g'.countStat = g.countStat) {q q' : PercentileQuery}
    (name : q'.field.name = q.field.name) (percentile : (q'.percentile == q.percentile) = true)
    (s : Session) (group : GroupId) : g'.percentile s group q' = g.percentile s group q := by
  unfold PercentileGrouping.percentile
  rw [counts]
  rcases (Session.push g.countStat).on s with ⟨outcome, u⟩
  cases outcome with
  | error e => rfl
  | ok countRef => simp only [PercentileQuery.answer_congr name percentile]

/-- Whether the rows of two groupings for one group agree: in their keys, and in the cells of queries that ask
for the same. -/
def Agree (g g' : PercentileGrouping) (row row' : ResultRow) : Prop :=
  row'.key = row.key ∧ ∀ q ∈ g.queries, ∀ q' ∈ g'.queries, q'.field.name = q.field.name →
    (q'.percentile == q.percentile) = true →
      ∃ v, row.values[q.position]? = some v ∧ row'.values[q'.position]? = some v

theorem Shows.agree (counts : g'.countStat = g.countStat) {e : GroupId × Key} {row row' : ResultRow}
    (shown : g.Shows s refs e row) (shown' : g'.Shows s refs e row') : g.Agree g' row row' := by
  refine ⟨shown'.key.trans shown.key.symm, ?_⟩
  intro q queried q' queried' name percentile
  refine ⟨g.percentile s e.1 q, ?_, ?_⟩
  · exact shown.values.positions _ (List.mem_map_of_mem (f := fun q => (q.position, g.percentile s e.1 q)) queried)
  · rw [← percentile_congr counts name percentile]
    exact shown'.values.positions _
      (List.mem_map_of_mem (f := fun q => (q.position, g'.percentile s e.1 q)) queried')

/-- Rows for one group are the same where the same is asked in another order. -/
theorem Shows.unique (counts : g'.countStat = g.countStat) (permuted : g'.queries.Perm g.queries)
    {e : GroupId × Key} {row row' : ResultRow} (shown : g.Shows s refs e row)
    (shown' : g'.Shows s refs e row') : row' = row := by
  have placed : (g'.queries.map fun q => (q.position, g'.percentile s e.1 q)).Perm
      (g.queries.map fun q => (q.position, g.percentile s e.1 q)) := by
    unfold PercentileGrouping.percentile
    rw [counts]
    exact permuted.map _
  have values : row'.values = row.values := shown'.values.unique shown.values placed
  have key : row'.key = row.key := shown'.key.trans shown.key.symm
  exact congrArg₂ ResultRow.mk key values

section Lists
variable {listed : List (GroupId × Key)} {rows rows' : List ResultRow}
  (shown : List.Forall₂ (g.Shows s refs) listed rows) (shown' : List.Forall₂ (g'.Shows s refs) listed rows')
  (counts : g'.countStat = g.countStat)

include shown in
theorem keys_of_shows : rows.map (·.key) = listed.map (·.2) := by
  rw [eq_comm, ← List.forall₂_eq_eq_eq, List.forall₂_map_left_iff, List.forall₂_map_right_iff]
  exact shown.imp fun _ _ here => here.key.symm

include shown shown' counts

theorem agree_of_shows : List.Forall₂ (g.Agree g') rows rows' := by
  refine forall₂_comp ?_ shown.flip shown'
  intro row e row' here here'
  exact Shows.agree counts here here'

theorem eq_of_shows (permuted : g'.queries.Perm g.queries) : rows' = rows := by
  rw [← List.forall₂_eq_eq_eq]
  refine forall₂_comp ?_ shown'.flip shown
  intro row' e row here' here
  exact Shows.unique counts permuted here here'

end Lists

/-- Two percentile groupings that count by the same statistic succeed or fail alike on a session, and where they
succeed, each listed group has a row in both, under its key, and every query of the one for a field and a
percentile shows the same value as every such query of the other, whatever else is asked, in which order, at
which positions and through which view. A grouping whose queries are permuted does just the same. -/
theorem collect_independent (inStep : s.InStep) (sound : s.failAfter = none)
    (counts : g'.countStat = g.countStat) (distinct : (g.queries.map (·.position)).Nodup)
    (distinct' : (g'.queries.map (·.position)).Nodup)
    (within : ∀ q ∈ g.queries, q.position < refs.length + g.queries.length)
    (within' : ∀ q ∈ g'.queries, q.position < refs.length + g'.queries.length) {deadline : Deadline}
    (inTime : deadline.missed = false) (keys : KeyMap) :
    Outcome.Related (fun listed listed' => ∃ rows rows', listed = rows.map .ok ∧ listed' = rows'.map .ok ∧
          rows.map (·.key) = (s.listed keys).map (·.2) ∧
          List.Forall₂ (g.Agree g') rows rows')
        ((g.collect keys refs deadline).on s).1 ((g'.collect keys refs deadline).on s).1 ∧
      (g'.queries.Perm g.queries →
        (g'.collect keys refs deadline).on s = (g.collect keys refs deadline).on s) := by
  have outcome := on_collect_shows inStep distinct within sound inTime keys
  have outcome' := on_collect_shows inStep distinct' within' sound inTime keys
  rw [counts] at outcome'
  cases values : s.evaluated g.countStat with
  | error e =>
    simp only [values] at outcome outcome'
    rw [outcome, outcome']
    exact ⟨.error e, fun _ => rfl⟩
  | ok entries =>
    simp only [values] at outcome outcome'
    cases summed : refs.mapM s.groupStats with
    | error e =>
      simp only [summed] at outcome outcome'
      rw [outcome, outcome']
      exact ⟨.error e, fun _ => rfl⟩
    | ok ordinary =>
      simp only [summed] at outcome outcome'
      obtain ⟨rows, collected, shown⟩ := outcome
      obtain ⟨rows', collected', shown'⟩ := outcome'
      rw [collected, collected']
      refine ⟨.ok ⟨rows, rows', rfl, rfl, keys_of_shows shown, agree_of_shows shown shown' counts⟩, ?_⟩
      intro permuted
      rw [eq_of_shows shown shown' counts permuted]

/-- Seven documents in two groups, of which one has no integer; the count is pushed. -/
def scores : Session :=
  let docs : List Document := [⟨[("x", .int 3), ("y", .int 8)]⟩, ⟨[("x", .text " 5 ")]⟩, ⟨[("x", .int 9)]⟩,
    ⟨[("x", .text "none")]⟩, ⟨[("x", .int 4), ("y", .text "6")]⟩, ⟨[("x", .int 2), ("y", .int 1)]⟩,
    ⟨[("x", .int 1)]⟩]
  let opened := ((Session.assign [1, 1, 1, 1, 2, 2, 0]).on (.new 0 docs .standard)).2
  ((Session.push .count).on opened).2

def scoreKeys : KeyMap := .ofList [(1, .child .root (.text "a")), (2, .child .root (.text "b"))]

/-- The median of a field beside the least value of another. -/
def medianFirst : PercentileGrouping := ⟨.count, [⟨⟨"x", .int⟩, 50, 0⟩, ⟨⟨"y", .text⟩, 0, 2⟩]⟩

/-- The same median, asked last and through the other view, and the least value asked by the other zero. -/
def medianLast : PercentileGrouping :=
  ⟨.count, [⟨⟨"y", .int⟩, -0, 0⟩, ⟨⟨"x", .int⟩, 100, 1⟩, ⟨⟨"x", .text⟩, 50, 3⟩]⟩

theorem collect_independent_of_scores :
    let refs : List StatRef := [.single ⟨0, 0, 1⟩]
    scores.InStep ∧ scores.failAfter = none ∧ medianLast.countStat = medianFirst.countStat ∧
    (medianFirst.queries.map (·.position)).Nodup ∧ (medianLast.queries.map (·.position)).Nodup ∧
    (∀ q ∈ medianFirst.queries, q.position < refs.length + medianFirst.queries.length) ∧
    (∀ q ∈ medianLast.queries, q.position < refs.length + medianLast.queries.length) ∧
    Deadline.none.missed = false ∧ ∃ rows rows' : List ResultRow,
      ((medianFirst.collect scoreKeys refs .none).on scores).1 = .ok (rows.map .ok) ∧
      ((medianLast.collect scoreKeys refs .none).on scores).1 = .ok (rows'.map .ok) ∧
      rows.map (·.values) = [[5, 4, 8], [2, 2, 6]] ∧
      List.Forall₂ (fun row row' => row'.values[3]? = row.values[0]? ∧ row'.values[0]? = row.values[2]?)
        rows rows' := by
  intro refs
  have inStep : scores.InStep := ⟨rfl, by decide +kernel⟩
  have counts : medianLast.countStat = medianFirst.countStat := rfl
  have distinct : (medianFirst.queries.map (·.position)).Nodup := by decide
  have distinct' : (medianLast.queries.map (·.position)).Nodup := by decide
  have within : ∀ q ∈ medianFirst.queries, q.position < refs.length + medianFirst.queries.length := by decide
  have within' : ∀ q ∈ medianLast.queries, q.position < refs.length + medianLast.queries.length := by decide
  have inTime : Deadline.none.missed = false := rfl
  have shown : ((medianFirst.collect scoreKeys refs .none).on scores).1 =
      .ok [.ok ⟨.child .root (.text "a"), [5, 4, 8]⟩, .ok ⟨.child .root (.text "b"), [2, 2, 6]⟩] := by
    decide +kernel
  obtain ⟨related, -⟩ := collect_independent inStep rfl counts distinct distinct' within within' inTime scoreKeys
  obtain ⟨_, shown', rows, rows', same, rfl, -, agree⟩ := related.exists_of_ok shown
  have values : rows.map (·.values) = [[5, 4, 8], [2, 2, 6]] := by
    have listed : rows = [⟨.child .root (.text "a"), [5, 4, 8]⟩, ⟨.child .root (.text "b"), [2, 2, 6]⟩] :=
      Outcome.map_ok_injective same.symm
    rw [listed]
    rfl
  refine ⟨inStep, rfl, counts, distinct, distinct', within, within', inTime, rows, rows', shown.trans ?_, shown',
    values, agree.imp ?_⟩
  · rw [same]
  · intro row row' here
    obtain ⟨median, cell, cell'⟩ := here.2 ⟨⟨"x", .int⟩, 50, 0⟩ (by decide +kernel) ⟨⟨"x", .text⟩, 50, 3⟩
      (by decide +kernel) rfl (by decide +kernel)
    obtain ⟨least, bottom, bottom'⟩ := here.2 ⟨⟨"y", .text⟩, 0, 2⟩ (by decide +kernel) ⟨⟨"y", .int⟩, -0, 0⟩
      (by decide +kernel) rfl (by decide +kernel)
    exact ⟨cell'.trans cell.symm, bottom'.trans bottom.symm⟩

end Rollup.PercentileGrouping
