import Rollup.Proofs.Grouping.Lifecycle
import Rollup.Proofs.Output.Layout
import Rollup.Proofs.Query.Push

namespace Rollup

namespace Stage

theorem on_beside_regroup (g : Grouping) (keys : KeyMap) (s : Session) :
    (Action.beside (Stage.new g) (Stage.regroup keys)).on s = (g.regroup keys).on s :=
  on_beside_serve .regroup (·.regroup keys) g s

theorem on_beside_collect (g : Grouping) (keys : KeyMap) (refs : List StatRef) (deadline : Deadline)
    (s : Session) :
    (Action.beside (Stage.new g) (Stage.collect keys refs deadline)).on s =
      (g.collect keys refs deadline).on s :=
  on_beside_serve .collect (·.collect keys refs deadline) g s

end Stage

/-- Rows are assembled exactly when no fault is among them. -/
theorem assemble_eq_ok_iff {listed : List (Except Fault ResultRow)} {rows : List ResultRow} :
    assemble [listed] = .ok rows ↔ listed = rows.map .ok := by
  rw [assemble, List.flatten_singleton, Outcome.mapM_eq_ok_iff, ← List.forall₂_eq_eq_eq,
    List.forall₂_map_right_iff]
  rfl

theorem assemble_ok (rows : List ResultRow) : assemble [rows.map .ok] = .ok rows :=
  assemble_eq_ok_iff.2 rfl

theorem ok_mem_of_assemble {listed : List (Except Fault ResultRow)} {rows : List ResultRow}
    (assembled : assemble [listed] = .ok rows) {row : ResultRow} (member : row ∈ rows) : .ok row ∈ listed := by
  rw [assemble_eq_ok_iff.1 assembled]
  exact List.mem_map_of_mem member

namespace Query

theorem execute_of_run_error {q : Query} {settings : Settings} (valid : settings.validate = .ok ())
    {s t : Session} {e : Fault} (run : (q.run (.ofSettings settings)).on s = (.error e, t)) :
    ((q.execute settings).on s).1 = .error e := by
  simp only [execute, Action.on_bind, Action.on_ofExcept, valid, Action.on_get, Action.on_attempt, run]

theorem execute_of_run_ok {q : Query} {settings : Settings} (valid : settings.validate = .ok ())
    {s t : Session} {table : ResultTable} (run : (q.run (.ofSettings settings)).on s = (.ok table, t))
    (unwound : ((unwind (t.stack.size - s.stack.size)).on t).1 = .ok ()) :
    ((q.execute settings).on s).1 = .ok table := by
  simp only [execute, Action.on_bind, Action.on_ofExcept, valid, Action.on_get, Action.on_attempt, run,
    unwound, Action.on_pure]

/-- A query whose columns cannot be laid out does nothing. -/
theorem on_execute_of_layout_error {q : Query} {settings : Settings} (valid : settings.validate = .ok ())
    {e : Fault} (refused : q.layout = .error e) (s : Session) :
    (q.execute settings).on s = (.error e, s) := by
  simp only [execute, run, Action.on_bind, Action.on_ofExcept, valid, Action.on_get, Action.on_attempt,
    refused, Nat.sub_self, unwind, Action.on_pure]

/-- A query succeeds when its run does and what it pushed can be popped. -/
theorem on_execute_eq_ok_iff {q : Query} {settings : Settings} {s t : Session} {table : ResultTable} :
    (q.execute settings).on s = (.ok table, t) ↔
      settings.validate = .ok () ∧ ∃ u, (q.run (.ofSettings settings)).on s = (.ok table, u) ∧
        (unwind (u.stack.size - s.stack.size)).on u = (.ok (), t) := by
  rw [execute, Action.on_ofExcept_bind_eq_ok_iff]
  rcases ran : (q.run (.ofSettings settings)).on s with ⟨outcome, u⟩
  rcases unwound : (unwind (u.stack.size - s.stack.size)).on u with ⟨ended, v⟩
  have attempted : (Action.attempt (q.run (.ofSettings settings))).on s = (.ok outcome, u) := by
    rw [Action.on_attempt, ran]
  have popped : (Action.attempt (unwind (u.stack.size - s.stack.size))).on u = (.ok ended, v) := by
    rw [Action.on_attempt, unwound]
  simp only [Action.on_bind_ok (Action.on_get _), Action.on_bind_ok attempted, Action.on_bind_ok popped,
    Action.on_ofExcept_bind_eq_ok_iff, Action.on_pure, Prod.mk.injEq, Except.ok.injEq]
  constructor
  · intro h
    obtain ⟨_, valid, _, rfl, _, rfl, rfl, rfl⟩ := h
    exact ⟨valid, u, ⟨rfl, rfl⟩, unwound⟩
  · intro h
    obtain ⟨valid, u', ⟨rfl, rfl⟩, ended'⟩ := h
    cases unwound.symm.trans ended'
    exact ⟨(), valid, table, rfl, (), rfl, rfl, rfl⟩

theorem exists_on_run_of_on_execute {q : Query} {settings : Settings} {s t : Session}
    {table : ResultTable} (executed : (q.execute settings).on s = (.ok table, t)) :
    ∃ u, (q.run (.ofSettings settings)).on s = (.ok table, u) := by
  obtain ⟨-, u, ran, -⟩ := on_execute_eq_ok_iff.1 executed
  exact ⟨u, ran⟩

/-- The course of a run that succeeds: all statistics are pushed, the groupings but the last one regroup, and
the rows are those that the last one collects, or of the one group where there is none. -/
theorem course_of_on_run {q : Query} {deadline : Deadline} {s t : Session} {table : ResultTable}
    (ran : (q.run deadline).on s = (.ok table, t)) :
    ∃ layout refs u keys v, q.layout = .ok layout ∧ table.columns = layout.names ∧
      (pushAll q.stats).on s = (.ok refs, u) ∧
      (regroupAll deadline q.groupings.dropLast .initial).on u = (.ok keys, v) ∧
      match q.groupings.getLast? with
      | none => v = u ∧ keys = .initial ∧ ungroupedRows keys refs v = .ok table.rows
      | some last => ∃ listed, (last.collect keys refs deadline).on v = (.ok listed, t) ∧
        assemble [listed] = .ok table.rows := by
  unfold run at ran
  obtain ⟨layout, s', laid, ran⟩ := Action.on_bind_eq_ok_iff.1 ran
  cases congrArg Prod.snd laid
  obtain ⟨refs, u, pushed, ran⟩ := Action.on_bind_eq_ok_iff.1 ran
  cases last : q.groupings.getLast? with
  | none =>
    simp only [last] at ran
    rw [Action.on_bind_ok (Action.on_get u)] at ran
    obtain ⟨rows, u', listed, ran⟩ := Action.on_bind_eq_ok_iff.1 ran
    cases ran
    rw [List.getLast?_eq_none_iff.1 last]
    exact ⟨layout, refs, u, .initial, u, congrArg Prod.fst laid, rfl, pushed, rfl, rfl, rfl,
      congrArg Prod.fst listed⟩
  | some grouping =>
    simp only [last] at ran
    obtain ⟨keys, v, regrouped, ran⟩ := Action.on_bind_eq_ok_iff.1 ran
    obtain ⟨listed, v', collected, ran⟩ := Action.on_bind_eq_ok_iff.1 ran
    rw [Stage.on_beside_collect] at collected
    obtain ⟨rows, t', assembled, ran⟩ := Action.on_bind_eq_ok_iff.1 ran
    cases congrArg Prod.snd assembled
    cases ran
    exact ⟨layout, refs, u, keys, v, congrArg Prod.fst laid, rfl, pushed, regrouped, listed, collected,
      congrArg Prod.fst assembled⟩

/-- Without a grouping every group of a key map has a row with what the handles read for it. -/
theorem eq_map_of_ungroupedRows {keys : KeyMap} {refs : List StatRef} {s : Session} {rows : List ResultRow}
    (listed : ungroupedRows keys refs s = .ok rows) :
    rows = keys.toList.map fun e => ⟨e.2, refs.map (s.groupValue e.1)⟩ := by
  rw [ungroupedRows, Outcome.bind_eq_ok_iff] at listed
  obtain ⟨perStat, found, listed⟩ := listed
  rw [← Outcome.pure_eq_ok_iff.1 listed]
  refine List.map_congr_left fun e _ => ?_
  rw [Session.map_getD_of_mapM_groupStats found e.1]

end Query
end Rollup
