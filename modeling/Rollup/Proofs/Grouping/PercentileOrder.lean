import Rollup.Proofs.Grouping.Percentile
import Rollup.Proofs.Number.Scaling
import Rollup.Proofs.Stream.Reaching

namespace Rollup
open Number.Binary64

/-- The counts of distinct terms come to no more than there are values. -/
theorem tally_counts_le {values terms : List Int64} (distinct : terms.Nodup) :
    tally (terms.map fun v => (v, Int64.ofNat (min (values.count v) (2 ^ 53)))) +
      values.countP (· ∉ terms) ≤ values.length := by
  induction terms with
  | nil =>
    rw [List.map_nil, tally_nil, Int.zero_add]
    exact Int.ofNat_le.2 List.countP_le_length
  | cons t rest ih =>
    obtain ⟨fresh, others⟩ := List.nodup_cons.1 distinct
    have parts : values.countP (· ∉ t :: rest) + values.count t = values.countP (· ∉ rest) :=
      Tracker.countP_not_mem_cons fresh
    have count := toInt_ofNat (Nat.min_le_right (values.count t) (2 ^ 53))
    have step := ih others
    have bound := Nat.min_le_left (values.count t) (2 ^ 53)
    rw [List.map_cons, tally_cons, count]
    omega

namespace PercentileQuery

/-- The rank of a percentile in a group, as it is rounded on the way. -/
def rankIn (s : Session) (group : GroupId) (q : PercentileQuery) : Float :=
  q.percentile / 100 * ofInt64 (round (Stat.count.total (s.members group)))

end PercentileQuery

namespace PercentileGrouping

theorem Built.bounds {g : PercentileGrouping} (built : g.Built) :
    ∀ q ∈ g.queries, 0 ≤ q.percentile ∧ q.percentile ≤ 100 := by
  induction built with
  | new countStat => exact List.forall_mem_nil _
  | @add g g' q before added ih =>
    unfold PercentileGrouping.add at added
    split at added
    · cases added
    next within =>
      split at added
      · cases added
      · cases added
        simp only [Bool.not_eq_true, Bool.not_eq_false', Bool.and_eq_true, decide_eq_true_eq] at within
        intro q' member
        rcases List.mem_append.1 member with earlier | last
        · exact ih q' earlier
        · rw [List.mem_singleton.1 last]
          exact within

theorem on_push_countStat {g : PercentileGrouping} (counts : g.countStat = .count) {s : Session}
    (inStep : s.InStep) : (Session.push g.countStat).on s =
      (.ok (s.stack.push Stat.count.shape).1, s.pushed .count) := by
  rw [counts]
  exact Session.on_push inStep .count rfl

section Order
variable {g : PercentileGrouping} (counts : g.countStat = .count) {s : Session} (inStep : s.InStep)
  (bounded : s.entries.length < 2 ^ 63) {group : GroupId} (positive : 0 < group)
  (inRange : group < s.groupCount)
include counts inStep bounded positive inRange

/-- A percentile of a group is what its rank stands for among the integers of the group. -/
theorem percentile_eq_standing (q : PercentileQuery) :
    g.percentile s group q = ofInt64 (standing (s.termCounts q.field group) (q.rankIn s group)) := by
  obtain ⟨terms, counted, ascending, -⟩ :=
    Session.exists_termCounts inStep q.field (Nat.ne_of_gt positive)
  have distinct : terms.Nodup := ascending.imp Int64.ne_of_lt
  have tallied := @tally_counts_le (s.integers q.field group) terms distinct
  have length := s.length_integers_le q.field group
  have nonneg : ∀ e ∈ s.termCounts q.field group, 0 ≤ e.2.toInt := by
    rw [counted, List.forall_mem_map]
    intro v _
    rw [toInt_ofNat (Nat.min_le_right _ _)]
    exact Int.natCast_nonneg _
  have bound : tally (s.termCounts q.field group) < 2 ^ 63 := by
    rw [counted]
    omega
  have built : g.countStat.Built := by
    rw [counts]
    exact .count
  rw [percentile_eq inStep built (on_push_countStat counts inStep) inRange, counts, ← Session.termCounts_eq inStep]
  exact congrArg ofInt64 (Tracker.getD_crossing nonneg bound _)

/-- A greater percentile of a group is no less. -/
theorem percentile_mono {q q' : PercentileQuery} (field : q.field.name = q'.field.name)
    (low : 0 ≤ q.percentile) (order : q.percentile ≤ q'.percentile) (high : q'.percentile ≤ 100)
    (rank : 0 < q.rankIn s group) : g.percentile s group q ≤ g.percentile s group q' := by
  have view : q.field.asInt = q'.field.asInt := by
    rw [Field.asInt, Field.asInt, field]
  have same : s.termCounts q.field group = s.termCounts q'.field group := by
    rw [Session.termCounts_eq inStep, Session.termCounts_eq inStep, view]
  have ranks : q.rankIn s group ≤ q'.rankIn s group := by
    apply hundredths_mono low order high
    rw [round_total_count, Int64.le_iff_toInt_le, toInt_ofNat (Nat.min_le_right _ _)]
    exact Int.natCast_nonneg _
  obtain ⟨terms, counted, ascending, -⟩ :=
    Session.exists_termCounts inStep q.field (Nat.ne_of_gt positive)
  have ordered : (s.termCounts q.field group).Pairwise fun a b => a.1 < b.1 := by
    rw [counted, List.pairwise_map]
    exact ascending
  rw [percentile_eq_standing counts inStep bounded positive inRange,
    percentile_eq_standing counts inStep bounded positive inRange, ← same, ofInt64_le_iff]
  exact level_ofInt64_mono (standing_mono rank ranks ordered)

end Order

/-- Each cell is the term at which the tally of the group reaches the rank of its query, or the last term of
the group, or zero. Cells of one field are ordered like their percentiles, from the first whose rank is
positive. -/
theorem collect_ordered {g : PercentileGrouping} (built : g.Built) (counts : g.countStat = .count)
    {s : Session} (inStep : s.InStep) (sound : s.failAfter = none) (bounded : s.entries.length < 2 ^ 63)
    {refs : List StatRef} (within : ∀ q ∈ g.queries, q.position < refs.length + g.queries.length)
    {deadline : Deadline} (inTime : deadline.missed = false) (keys : KeyMap) :
    match refs.mapM s.groupStats with
    | .error e => (g.collect keys refs deadline).on s = (.error e, s.restamped 1)
    | .ok _ => ∃ rows, (g.collect keys refs deadline).on s = (.ok (rows.map .ok), s.restamped 1) ∧
        List.Forall₂ (fun e row => row.key = e.2 ∧
          (∀ q ∈ g.queries, row.values[q.position]? =
            some (ofInt64 (standing (s.termCounts q.field e.1) (q.rankIn s e.1)))) ∧
          ∀ q ∈ g.queries, ∀ q' ∈ g.queries, q.field.name = q'.field.name →
            q.percentile ≤ q'.percentile → 0 < q.rankIn s e.1 →
              ∃ v v', row.values[q.position]? = some v ∧ row.values[q'.position]? = some v' ∧ v ≤ v')
          (s.listed keys) rows := by
  have pushed := on_push_countStat counts inStep
  have shown := on_collect_shows inStep built.nodup_positions within sound inTime keys
  cases values : s.evaluated g.countStat with
  | error e =>
    rw [Session.on_push_eq, values] at pushed
    cases pushed
  | ok entries =>
    have width : g.countStat.width = 1 := by
      rw [counts]
      rfl
    simp only [values, width] at shown
    cases summed : refs.mapM s.groupStats with
    | error e =>
      simp only [summed] at shown
      exact shown
    | ok ordinary =>
      simp only [summed] at shown
      obtain ⟨rows, collected, each⟩ := shown
      have inRange : ∀ e ∈ s.listed keys, 0 < e.1 ∧ e.1 < s.groupCount := by
        intro e entry
        obtain ⟨-, positive, below, -⟩ := Session.mem_listed_iff.1 entry
        exact ⟨positive, below⟩
      refine ⟨rows, collected, ((List.forall₂_and_left _ _).2 ⟨inRange, each⟩).imp ?_⟩
      intro e row here
      obtain ⟨⟨positive, below⟩, shows⟩ := here
      have placed (q : PercentileQuery) (queried : q ∈ g.queries) :
          row.values[q.position]? = some (g.percentile s e.1 q) :=
        shows.values.positions _ (List.mem_map_of_mem queried)
      refine ⟨shows.key, ?_, ?_⟩
      · intro q queried
        rw [placed q queried, percentile_eq_standing counts inStep bounded positive below]
      · intro q queried q' queried' field order rank
        refine ⟨_, _, placed q queried, placed q' queried', ?_⟩
        exact percentile_mono counts inStep bounded positive below field (built.bounds q queried).1 order
          (built.bounds q' queried').2 rank

/-- Four documents, of which two have an integer. -/
def patchy : Session :=
  .new 0 [⟨[("x", .int 5)]⟩, ⟨[]⟩, ⟨[("x", .int 1)]⟩, ⟨[("y", .int 9)]⟩] .standard

def lesserQuery : PercentileQuery := ⟨⟨"x", .text⟩, 20, 0⟩

def greaterQuery : PercentileQuery := ⟨⟨"x", .int⟩, 90, 1⟩

def patchyGrouping : PercentileGrouping := ⟨.count, [greaterQuery, lesserQuery]⟩

/-- The lesser rank is that of the first integer, and the greater one is beyond both integers. -/
theorem collect_ordered_of_patchy : patchyGrouping.Built ∧ patchyGrouping.countStat = .count ∧
    patchy.InStep ∧ patchy.failAfter = none ∧ patchy.entries.length < 2 ^ 63 ∧
    (∀ q ∈ patchyGrouping.queries, q.position < ([] : List StatRef).length + patchyGrouping.queries.length) ∧
    Deadline.none.missed = false ∧
    0 < lesserQuery.rankIn patchy 1 ∧ ¬greaterQuery.rankIn patchy 1 ≤ 2 ∧
    ∃ row, (patchyGrouping.collect .initial [] .none).on patchy = (.ok [.ok row], patchy.restamped 1) ∧
      row.values[0]? = some 1 ∧ row.values[1]? = some 5 ∧
      ∃ v v', row.values[0]? = some v ∧ row.values[1]? = some v' ∧ v ≤ v' := by
  have first : (PercentileGrouping.new .count).add greaterQuery = .ok ⟨.count, [greaterQuery]⟩ := by rfl
  have second : PercentileGrouping.add ⟨.count, [greaterQuery]⟩ lesserQuery = .ok patchyGrouping := by rfl
  have built : patchyGrouping.Built := .add (.add (.new .count) first) second
  have inStep : patchy.InStep := ⟨rfl, by decide⟩
  have bounded : patchy.entries.length < 2 ^ 63 := by decide
  have within : ∀ q ∈ patchyGrouping.queries,
      q.position < ([] : List StatRef).length + patchyGrouping.queries.length := by decide
  have inTime : Deadline.none.missed = false := rfl
  have rank : 0 < lesserQuery.rankIn patchy 1 := by decide +kernel
  have percentiles : lesserQuery.percentile ≤ greaterQuery.percentile := by decide +kernel
  obtain ⟨rows, collected, shown⟩ := collect_ordered built rfl inStep rfl bounded within inTime .initial
  have listed : patchy.listed .initial = [(1, .root)] := rfl
  rw [listed] at shown
  obtain ⟨row, others, here, nothing, rfl⟩ := List.forall₂_cons_left_iff.1 shown
  cases nothing
  obtain ⟨-, cells, order⟩ := here
  have lesser : row.values[0]? = some 1 :=
    (cells lesserQuery (.tail _ (.head _))).trans (by decide +kernel)
  have greater : row.values[1]? = some 5 := (cells greaterQuery (.head _)).trans (by decide +kernel)
  exact ⟨built, rfl, inStep, rfl, bounded, within, inTime, rank, by decide +kernel, row, collected, lesser,
    greater, order lesserQuery (.tail _ (.head _)) greaterQuery (.head _) rfl percentiles rank⟩

end PercentileGrouping
end Rollup
