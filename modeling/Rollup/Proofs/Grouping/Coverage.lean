import Rollup.Proofs.Grouping.PercentileRows
import Rollup.Proofs.Query.Execution

namespace Rollup

/-- Without a grouping every group of a key map has a row, with zeros for one that the session does not count. -/
theorem Query.ungroupedRows_eq {s : Session} (inStep : s.InStep) {refs : List StatRef}
    (live : ∀ ref ∈ refs, s.stack.isValid ref = true) (keys : KeyMap) :
    ungroupedRows keys refs s = .ok (keys.toList.map fun e => ⟨e.2, refs.map (s.groupValue e.1)⟩) := by
  obtain ⟨perStat, found, -⟩ := Session.mapM_groupStats inStep live
  have listed : ∃ rows, ungroupedRows keys refs s = .ok rows := by
    rw [ungroupedRows, found]
    exact ⟨_, rfl⟩
  obtain ⟨rows, listed⟩ := listed
  rw [listed, eq_map_of_ungroupedRows listed]

namespace PercentileGrouping
variable {g : PercentileGrouping} {s : Session} {keys : KeyMap} {refs : List StatRef}

/-- A row without its percentiles. -/
def ordinary (g : PercentileGrouping) (row : ResultRow) : ResultRow :=
  ⟨row.key, (row.values.zipIdx.filter fun c => c.2 ∉ g.queries.map (·.position)).map (·.1)⟩

theorem Shows.ordinary_eq {e : GroupId × Key} {row : ResultRow} (shown : g.Shows s refs e row) :
    g.ordinary row = ⟨e.2, refs.map (s.groupValue e.1)⟩ := by
  have others := shown.values.others
  simp only [List.map_map, Function.comp_def] at others
  rw [ordinary, shown.key, others]

theorem map_ordinary_of_shows {listed : List (GroupId × Key)} {rows : List ResultRow}
    (shown : List.Forall₂ (g.Shows s refs) listed rows) :
    rows.map g.ordinary = listed.map fun e => ⟨e.2, refs.map (s.groupValue e.1)⟩ := by
  rw [← List.forall₂_eq_eq_eq, List.forall₂_map_left_iff, List.forall₂_map_right_iff]
  exact shown.flip.imp fun _ _ here => here.ordinary_eq

/-- The listed groups are those that the session counts, unless an id is out of all bounds. -/
theorem listed_eq (ids : ∀ e ∈ keys.toList, 0 < e.1 ∧ e.1 < idBound) (s : Session) :
    s.listed keys = keys.toList.filter fun e => e.1 < s.groupCount := by
  apply List.filter_congr
  intro e member
  obtain ⟨positive, bounded⟩ := ids e member
  rw [decide_eq_true positive, Bool.true_and, decide_eq_decide]
  exact ⟨fun h => (Nat.lt_min.1 h).1, fun h => Nat.lt_min.2 ⟨h, bounded⟩⟩

/-- Collecting yields one row per group of the key map that the session counts, in ascending order, each with
the percentiles of the group at their positions and its values in the other columns; unless the count statistic
cannot be pushed, which is all that can fail. Without a grouping every group of the key map has a row. So beside
the percentiles the two have the same rows exactly when the session counts every group of the key map. -/
theorem collect_covers_iff (inStep : s.InStep) (sound : s.failAfter = none)
    (ids : ∀ e ∈ keys.toList, 0 < e.1 ∧ e.1 < idBound)
    (live : ∀ ref ∈ refs, s.stack.isValid ref = true) (distinct : (g.queries.map (·.position)).Nodup)
    (within : ∀ q ∈ g.queries, q.position < refs.length + g.queries.length) {deadline : Deadline}
    (inTime : deadline.missed = false) :
    match ((Session.push g.countStat).on s).1 with
    | .error e => (g.collect keys refs deadline).on s = (.error e, s)
    | .ok _ => ∃ rows, (g.collect keys refs deadline).on s =
          (.ok (rows.map .ok), s.restamped g.countStat.width) ∧
        List.Forall₂ (g.Shows s refs) (keys.toList.filter fun e => e.1 < s.groupCount) rows ∧
        Query.ungroupedRows keys refs s =
          .ok (keys.toList.map fun e => ⟨e.2, refs.map (s.groupValue e.1)⟩) ∧
        (Query.ungroupedRows keys refs s = .ok (rows.map g.ordinary) ↔
          ∀ e ∈ keys.toList, e.1 < s.groupCount) := by
  have outcome := on_collect_shows inStep distinct within sound inTime keys
  rw [Session.on_push_eq]
  cases values : s.evaluated g.countStat with
  | error e =>
    simp only [values] at outcome
    exact outcome
  | ok entries =>
    obtain ⟨perStat, summed, -⟩ := Session.mapM_groupStats inStep live
    simp only [values, summed] at outcome
    obtain ⟨rows, collected, shown⟩ := outcome
    rw [listed_eq ids] at shown
    refine ⟨rows, collected, shown, Query.ungroupedRows_eq inStep live keys, ?_⟩
    rw [Query.ungroupedRows_eq inStep live keys, map_ordinary_of_shows shown, Except.ok.injEq]
    constructor
    · intro same
      have length := congrArg List.length same
      rw [List.length_map, List.length_map, eq_comm, List.length_filter_eq_length_iff] at length
      exact fun e member => of_decide_eq_true (length e member)
    · intro counted
      have all : (keys.toList.filter fun e => e.1 < s.groupCount) = keys.toList :=
        List.filter_eq_self.2 fun e member => decide_eq_true (counted e member)
      rw [all]

/-- A document that is dropped from the only group; the count is pushed. -/
def vacated : Session :=
  ((Session.push .count).on ((Session.assign [0]).on (.new 0 [⟨[("x", .int 7)]⟩] .standard)).2).2

def lastMedian : PercentileGrouping := ⟨.count, [⟨⟨"x", .int⟩, 50, 1⟩]⟩

/-- The group has a row of zeros without a grouping, and none beside its median. -/
theorem collect_covers_iff_of_vacated :
    let refs : List StatRef := [.single ⟨0, 0, 1⟩]
    vacated.InStep ∧ vacated.failAfter = none ∧
    (∀ e ∈ KeyMap.initial.toList, 0 < e.1 ∧ e.1 < idBound) ∧
    (∀ ref ∈ refs, vacated.stack.isValid ref = true) ∧ (lastMedian.queries.map (·.position)).Nodup ∧
    (∀ q ∈ lastMedian.queries, q.position < refs.length + lastMedian.queries.length) ∧
    Deadline.none.missed = false ∧
    ((lastMedian.collect .initial refs .none).on vacated).1 = .ok [] ∧
    Query.ungroupedRows .initial refs vacated = .ok [⟨.root, [0]⟩] := by
  intro refs
  have inStep : vacated.InStep := ⟨rfl, by decide +kernel⟩
  have sound : vacated.failAfter = none := rfl
  have ids : ∀ e ∈ KeyMap.initial.toList, 0 < e.1 ∧ e.1 < idBound := by decide
  have live : ∀ ref ∈ refs, vacated.stack.isValid ref = true := by decide
  have distinct : (lastMedian.queries.map (·.position)).Nodup := by decide
  have within : ∀ q ∈ lastMedian.queries, q.position < refs.length + lastMedian.queries.length := by decide
  have inTime : Deadline.none.missed = false := rfl
  have outcome := collect_covers_iff inStep sound ids live distinct within inTime
  have pushed : ((Session.push lastMedian.countStat).on vacated).1 = .ok (.single ⟨0, 1, 2⟩) := by
    decide +kernel
  simp only [pushed] at outcome
  obtain ⟨rows, collected, shown, ungrouped, -⟩ := outcome
  have nobody : (KeyMap.initial.toList.filter fun e => e.1 < vacated.groupCount) = [] := by decide
  rw [nobody, List.forall₂_nil_left_iff] at shown
  rw [shown] at collected
  refine ⟨inStep, sound, ids, live, distinct, within, inTime, congrArg Prod.fst collected, ungrouped.trans ?_⟩
  have zero : refs.map (vacated.groupValue 1) = [0] := rfl
  show Except.ok [(⟨.root, refs.map (vacated.groupValue 1)⟩ : ResultRow)] = _
  rw [zero]

end PercentileGrouping
end Rollup
