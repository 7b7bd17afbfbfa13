import Rollup.Proofs.Grouping.PercentileRows

namespace Rollup
open Number.Binary64

/-- The integer that a document has under a field, if any. -/
def Document.integer? (f : Field) (d : Document) : Option Int64 := (d.get? f.name).bind Term.asInt

theorem Document.term?_asInt (f : Field) (d : Document) :
    d.term? f.asInt = (d.integer? f).map .int := by
  show (d.get? f.name).bind (fun t => t.asInt.map Term.int) =
    ((d.get? f.name).bind Term.asInt).map Term.int
  cases d.get? f.name with
  | none => rfl
  | some t => rfl

/-- Adding up ones is counting, as far as counts are exact. -/
theorem sum_replicate (n : Nat) : sum (List.replicate n 1) = ofCount (min n (2 ^ 53)) := by
  induction n with
  | zero => decide +kernel
  | succ n ih =>
    rw [List.replicate_succ', sum, List.foldl_append, ← sum, ih]
    by_cases short : n < 2 ^ 53
    · rw [Nat.min_eq_left (Nat.le_of_lt short), Nat.min_eq_left short]
      exact ofCount_add_one short
    · have full : ofCount (2 ^ 53) + 1 = ofCount (2 ^ 53) := by decide +kernel
      rw [Nat.min_eq_right (Nat.not_lt.1 short), Nat.min_eq_right (by omega)]
      exact full

theorem total_count (rs : List Reading) : Stat.count.total rs = ofCount (min rs.length (2 ^ 53)) := by
  have ones : rs.map (fun r => Stat.count.value r) = List.replicate rs.length 1 := List.map_const'
  show sum (rs.map fun r => Stat.count.value r) = _
  rw [ones, sum_replicate]

theorem round_total_count (rs : List Reading) :
    round (Stat.count.total rs) = Int64.ofNat (min rs.length (2 ^ 53)) := by
  rw [total_count, round_ofCount (Nat.min_le_right _ _)]

namespace Session

/-- The number of documents in a group. -/
def population (group : GroupId) (s : Session) : Nat := (s.entries.filter (·.group = group)).length

/-- The integers that the documents of a group have under a field, in document order. -/
def integers (f : Field) (group : GroupId) (s : Session) : List Int64 :=
  (s.entries.filter (·.group = group)).filterMap (·.doc.integer? f)

section Integers
variable (f : Field) {group : GroupId} (live : group ≠ 0) (s : Session)

theorem population_le (group : GroupId) : s.population group ≤ s.entries.length :=
  List.length_filter_le _ _

theorem length_integers_le (group : GroupId) : (s.integers f group).length ≤ s.entries.length :=
  Nat.le_trans (List.length_filterMap_le _ _) (s.population_le group)

include live in
theorem cell?_asInt_eq_some_iff (e : Entry) (c : Cell) (here : c.group = group) :
    e.cell? f.asInt = some c ↔ e.group = group ∧ ∃ v, e.doc.integer? f = some v ∧ c.term = .int v := by
  rw [Entry.cell?_eq_some_iff, Document.term?_asInt, here, Option.map_eq_some_iff]
  simp [live, eq_comm, and_comm]

include live in
/-- The documents of a cell of an integer are as many as the group has of this integer. -/
theorem length_inCell (v : Int64) :
    (s.inCell f.asInt ⟨.int v, group⟩).length = (s.integers f group).count v := by
  rw [inCell, integers, List.length_map, ← List.countP_eq_length_filter, List.count, List.countP_filterMap,
    List.countP_filter]
  apply List.countP_congr
  intro e _
  rw [decide_eq_true_iff, cell?_asInt_eq_some_iff f live e _ rfl]
  cases e.doc.integer? f with
  | none => simp
  | some w =>
    simp only [Option.some.injEq, Option.map_some, Option.getD_some, Term.int.injEq, Bool.and_eq_true,
      beq_iff_eq, decide_eq_true_eq, exists_eq_left']
    exact ⟨fun h => ⟨h.2.symm, h.1⟩, fun h => ⟨h.2, h.1.symm⟩⟩

include live in
/-- The cells of a group in an integer view are those of its integers, in ascending order. -/
theorem exists_terms : ∃ terms : List Int64,
    (s.cellTotals f.asInt).keys.filter (·.group = group) = terms.map (fun v => ⟨.int v, group⟩) ∧
      (terms.Pairwise fun a b => a < b) ∧ ∀ v, v ∈ terms ↔ v ∈ s.integers f group := by
  have cell (c : Cell) : c ∈ (s.cellTotals f.asInt).keys.filter (·.group = group) ↔
      ∃ v ∈ s.integers f group, c = ⟨.int v, group⟩ := by
    rw [List.mem_filter, Table.mem_keys_iff, ← Option.isSome_iff_exists, isSome_get?_cellTotals,
      decide_eq_true_iff]
    constructor
    · intro h
      obtain ⟨⟨e, member, found⟩, here⟩ := h
      obtain ⟨same, v, integer, term⟩ := (cell?_asInt_eq_some_iff f live e c here).1 found
      refine ⟨v, List.mem_filterMap.2 ⟨e, List.mem_filter.2 ⟨member, decide_eq_true same⟩, integer⟩, ?_⟩
      rw [← term, ← here]
    · intro h
      obtain ⟨v, member, rfl⟩ := h
      obtain ⟨e, inGroup, integer⟩ := List.mem_filterMap.1 member
      obtain ⟨eMember, same⟩ := List.mem_filter.1 inGroup
      have found := (cell?_asInt_eq_some_iff f live e ⟨.int v, group⟩ rfl).2
        ⟨of_decide_eq_true same, v, integer, rfl⟩
      exact ⟨⟨e, eMember, found⟩, rfl⟩
  let terms := ((s.cellTotals f.asInt).keys.filter (·.group = group)).filterMap (·.term.asInt)
  have cells : (s.cellTotals f.asInt).keys.filter (·.group = group) =
      terms.map (fun v => ⟨.int v, group⟩) := by
    rw [List.map_filterMap]
    refine (List.filterMap_some.symm.trans ?_)
    apply List.filterMap_congr
    intro c member
    obtain ⟨v, -, rfl⟩ := (cell c).1 member
    rfl
  refine ⟨terms, cells, ?_, ?_⟩
  · have ascending := Cell.pairwise_term (s.cellTotals f.asInt).keys_ascending group
    rw [cells, List.pairwise_map] at ascending
    refine ascending.imp ?_
    intro a b before
    exact Std.compare_eq_lt.1 before
  · intro v
    have here := cell ⟨.int v, group⟩
    rw [cells, List.mem_map] at here
    constructor
    · intro member
      obtain ⟨w, wMember, same⟩ := here.1 ⟨v, member, rfl⟩
      cases same
      exact wMember
    · intro member
      obtain ⟨w, wMember, same⟩ := here.2 ⟨v, member, rfl⟩
      cases same
      exact wMember

end Integers

/-- The terms and counts of a group that the stream has once the count is pushed. -/
def termCounts (f : Field) (group : GroupId) (s : Session) : List (Int64 × Int64) :=
  (s.pushed .count).countedTerms (s.stack.push Stat.count.shape).1 f group

/-- The term that is found for a target in a group. -/
def crossed (f : Field) (group : GroupId) (target : Float) (s : Session) : Int64 :=
  Tracker.answer target (s.termCounts f group)

section TermCounts
variable {s : Session} (inStep : s.InStep) (few : s.entries.length ≤ 2 ^ 53) (f : Field) {group : GroupId}
  (live : group ≠ 0)

include inStep in
theorem termCounts_eq (group : GroupId) : s.termCounts f group =
    (s.scored f.asInt .count group).filterMap fun a => a.term.counted? a.score :=
  countedTerms_pushed inStep .count f group

include inStep live in
/-- They are its integers in ascending order, each with the number of its documents as far as counts are
exact. -/
theorem exists_termCounts : ∃ terms : List Int64,
    s.termCounts f group =
        terms.map (fun v => (v, Int64.ofNat (min ((s.integers f group).count v) (2 ^ 53)))) ∧
      (terms.Pairwise fun a b => a < b) ∧ ∀ v, v ∈ terms ↔ v ∈ s.integers f group := by
  obtain ⟨terms, cells, ascending, members⟩ := s.exists_terms f live
  refine ⟨terms, ?_, ascending, members⟩
  rw [termCounts_eq inStep, scored, cells, List.map_map, List.filterMap_map, ← List.filterMap_eq_map]
  apply List.filterMap_congr
  intro v _
  have score : round (Stat.count.total (s.inCell f.asInt ⟨.int v, group⟩)) =
      Int64.ofNat (min ((s.integers f group).count v) (2 ^ 53)) := by
    rw [round_total_count, s.length_inCell f live]
  show some (v, round (Stat.count.total (s.inCell f.asInt ⟨.int v, group⟩))) = _
  rw [score]
  rfl

include inStep few live in
theorem exists_termCounts_of_few : ∃ terms : List Int64,
    s.termCounts f group = terms.map (fun v => (v, Int64.ofNat ((s.integers f group).count v))) ∧
      (terms.Pairwise fun a b => a < b) ∧ ∀ v, v ∈ terms ↔ v ∈ s.integers f group := by
  obtain ⟨terms, counts, ordered⟩ := exists_termCounts inStep f live
  refine ⟨terms, counts.trans (List.map_congr_left ?_), ordered⟩
  intro v _
  have short : (s.integers f group).count v ≤ 2 ^ 53 :=
    Nat.le_trans List.count_le_length (Nat.le_trans (s.length_integers_le f group) few)
  rw [Nat.min_eq_left short]

include inStep few live in
/-- What is found for a target answers the test whether it is positive and no greater than a rank. -/
theorem answers_crossed (target : Float) :
    Answers (fun n => 0 < target ∧ target ≤ ofCount n) (s.integers f group)
      (s.crossed f group target) := by
  obtain ⟨terms, counts, ascending, members⟩ := exists_termCounts_of_few inStep few f live
  have short := Nat.le_trans (s.length_integers_le f group) few
  have answer := Tracker.answers_crossing target short ascending members
  have last : ((terms.map fun v => (v, Int64.ofNat ((s.integers f group).count v))).getLast?.map (·.1)) =
      terms.getLast? := by
    rw [List.getLast?_map, Option.map_map]
    exact Option.map_id'
  rw [crossed, Tracker.answer, counts, last]
  exact answer

include inStep few in
/-- The counts of the groups once the count is pushed. -/
theorem groupStats_count : ∃ totals, (s.pushed .count).groupStats (s.stack.push Stat.count.shape).1 =
      .ok totals ∧
    ∀ g, 0 < g → g < s.groupCount → (totals.map round).getD g 0 = Int64.ofNat (s.population g) := by
  have live : (s.pushed .count).stack.isValid (s.stack.push Stat.count.shape).1 = true :=
    s.stack.isValid_push Stat.count.shape
  obtain ⟨totals, found, -, each⟩ := groupStats_eq_ok (inStep.pushed .count) live
  refine ⟨totals, found, ?_⟩
  intro g positive inRange
  have short : ((s.entries.filter (·.group = g)).map (·.toReading)).length ≤ 2 ^ 53 := by
    rw [List.length_map]
    exact Nat.le_trans (s.population_le g) few
  have total := each g inRange
  rw [total_members_pushed inStep .count g, members_of_pos positive, total_count, Nat.min_eq_left short,
    List.length_map] at total
  rw [List.getD_eq_getElem?_getD, List.getElem?_map, total, Option.map_some, Option.getD_some]
  exact round_ofCount (Nat.le_trans (s.population_le g) few)

end TermCounts
end Session

namespace PercentileQuery

/-- The rounded rank that a percentile stands for among `n` documents. -/
def target (n : Nat) (q : PercentileQuery) : Float := q.percentile / 100 * ofCount n

/-- The percentile of `n` documents is among the lowest `c`, in exact arithmetic. -/
def Reached (n : Nat) (q : PercentileQuery) (c : Nat) : Prop :=
  inUnits q.percentile * n ≤ (100 * c * unit : Nat)

/-- The percentile of `n` documents is among the lowest `c` by its rounded rank. -/
def Crossed (n : Nat) (q : PercentileQuery) (c : Nat) : Prop := 0 < q.target n ∧ q.target n ≤ ofCount c

instance (n : Nat) (q : PercentileQuery) : DecidablePred (q.Reached n) := fun c =>
  inferInstanceAs (Decidable (inUnits q.percentile * n ≤ (100 * c * unit : Nat)))

instance (n : Nat) (q : PercentileQuery) : DecidablePred (q.Crossed n) := fun c =>
  inferInstanceAs (Decidable (0 < q.target n ∧ q.target n ≤ ofCount c))

theorem reached_mono {q : PercentileQuery} {n a b : Nat} (h : a ≤ b) (reached : q.Reached n a) :
    q.Reached n b := by
  have more : 100 * a * unit ≤ 100 * b * unit := Nat.mul_le_mul_right _ (Nat.mul_le_mul_left _ h)
  exact Int.le_trans reached (Int.ofNat_le.2 more)

theorem crossed_mono {q : PercentileQuery} {n a b : Nat} (h : a ≤ b) (short : b ≤ 2 ^ 53)
    (crossed : q.Crossed n a) : q.Crossed n b :=
  ⟨crossed.1, Tracker.le_ofCount_of_le h short crossed.2⟩

/-- A rank that needs no rounding makes the exact test. -/
theorem crossed_iff_reached {q : PercentileQuery} {n c : Nat} (finite : (q.target n).isFinite = true)
    (positive : 0 < inUnits (q.target n))
    (exact : 100 * inUnits (q.target n) = inUnits q.percentile * n) (short : c ≤ 2 ^ 53) :
    q.Crossed n c ↔ q.Reached n c := by
  have zero : (0 : Float).isFinite = true ∧ inUnits 0 = 0 := by decide +kernel
  obtain ⟨countFinite, count⟩ := inUnits_ofCount short
  have number := isNaN_of_isFinite finite
  have above : level 0 < level (q.target n) := by
    rw [← Int.not_le, level_le_iff finite zero.1, zero.2, Int.not_le]
    exact positive
  have product : ((100 * c * unit : Nat) : Int) = 100 * (c * unit : Nat) := by
    rw [Nat.mul_assoc, Int.natCast_mul]
    rfl
  rw [Crossed, Reached, lt_iff (isNaN_of_isFinite zero.1) number,
    le_iff_inUnits finite countFinite, count, ← exact, product]
  constructor
  · intro crossed
    omega
  · intro reached
    exact ⟨above, by omega⟩

end PercentileQuery

namespace PercentileGrouping

/-- A percentile grouping as it comes about: empty at first, its queries added one by one. -/
inductive Built : PercentileGrouping → Prop where
  | new (countStat : Stat) : Built (.new countStat)
  | add {g g' : PercentileGrouping} {q : PercentileQuery} (before : Built g)
      (added : g.add q = .ok g') : Built g'

theorem Built.nodup_positions {g : PercentileGrouping} (built : g.Built) :
    (g.queries.map (·.position)).Nodup := by
  induction built with
  | new countStat => exact List.nodup_nil
  | @add g g' q before added ih =>
    unfold PercentileGrouping.add at added
    split at added
    · cases added
    · split at added
      · cases added
      next free =>
        cases added
        rw [List.map_append, List.map_singleton, List.nodup_append]
        refine ⟨ih, List.nodup_singleton _, ?_⟩
        intro p member p' last same
        obtain ⟨q', queried, rfl⟩ := List.mem_map.1 member
        rw [List.mem_singleton.1 last] at same
        exact free (List.any_eq_true.2 ⟨q', queried, beq_iff_eq.2 same⟩)

section Answers
variable {g : PercentileGrouping} {s : Session} (inStep : s.InStep) (sound : s.failAfter = none)
  (few : s.entries.length ≤ 2 ^ 53) {keys : KeyMap} {deadline : Deadline}
  (inTime : deadline.missed = false)
  (ids : ∀ e ∈ keys.toList, 0 < e.1 ∧ e.1 < s.groupCount)

include inStep sound few inTime ids in
/-- Every query of the grouping is answered in every group of the key map, at its position. -/
theorem answer_eq_ok (built : g.Built) :
    ∃ found, g.answer (s.pushed .count) keys (s.stack.push Stat.count.shape).1 deadline = .ok found ∧
      ∀ e ∈ keys.toList, ∃ cells, found.get? e.1 = some cells ∧ ∀ q ∈ g.queries,
        cells.get? q.position = some (s.crossed q.field e.1 (q.target (s.population e.1))) := by
  obtain ⟨totals, counted, count⟩ := Session.groupStats_count inStep few
  obtain ⟨found, answered⟩ := exists_answer (s := s.pushed .count) sound inTime g keys counted
  refine ⟨found, answered, ?_⟩
  intro e member
  obtain ⟨group, key⟩ := e
  obtain ⟨positive, inRange⟩ := ids (group, key) member
  obtain ⟨totals', counted', cells⟩ := cells_of_answer built.nodup_positions answered
  obtain ⟨here, entered, placed⟩ := cells group key ((keys.mem_toList_iff group key).1 member)
  refine ⟨here, entered, ?_⟩
  intro q queried
  have total : (totals'.map round).getD group 0 = Int64.ofNat (s.population group) := by
    cases counted.symm.trans counted'
    exact count group positive inRange
  rw [total] at placed
  exact (placed q.position _).2 ⟨q, queried, rfl, rfl⟩

include inStep sound few inTime ids in
/-- Collecting leaves the session as it was, but for the numbers of later pushes. -/
theorem on_collect (built : g.Built) (counts : g.countStat = .count) {refs : List StatRef}
    (live : ∀ ref ∈ refs, s.stack.isValid ref = true) :
    ∃ found ordinary, (g.collect keys refs deadline).on s =
        (.ok ((g.rows s keys found ordinary).map .ok), s.restamped 1) ∧ ordinary.length = refs.length ∧
      ∀ e ∈ keys.toList, ∃ cells, found.get? e.1 = some cells ∧ ∀ q ∈ g.queries,
        cells.get? q.position = some (s.crossed q.field e.1 (q.target (s.population e.1))) := by
  obtain ⟨found, answered, each⟩ := answer_eq_ok inStep sound few inTime ids built
  obtain ⟨ordinary, totals, length, -⟩ := Session.mapM_groupStats (inStep.restamped 1) live
  refine ⟨found, ordinary, ?_, length, each⟩
  have pushed : (Session.push .count).on s =
      (.ok (s.stack.push Stat.count.shape).1, s.pushed .count) := Session.on_push inStep .count rfl
  have popped : Session.pop.on (s.pushed .count) = (.ok (), s.restamped 1) :=
    Session.on_pop_pushed inStep .count
  rw [collect_eq, counts,
    Action.on_bind_ok (Session.on_measure_eq_ok_iff.2 ⟨_, _, pushed, answered, popped⟩),
    Action.on_bind_ok (Action.on_get _), tabulate, totals]
  rfl

end Answers

/-- The groups that are listed are those of the key map whose ids are below the bound. -/
theorem rows_eq (g : PercentileGrouping) {s : Session} {keys : KeyMap}
    (ids : ∀ e ∈ keys.toList, 0 < e.1 ∧ e.1 < s.groupCount) (found : Found)
    (ordinary : List (List Float)) :
    g.rows s keys found ordinary = (keys.toList.filter fun e => e.1 < idBound).map fun e =>
      ⟨e.2, percentileRow (ordinary.length + g.queries.length) ((found.get? e.1).getD .empty)
        (ordinary.map (·.getD e.1 0))⟩ := by
  have listed : s.listed keys = keys.toList.filter fun e => e.1 < idBound := by
    apply List.filter_congr
    intro e member
    obtain ⟨positive, inRange⟩ := ids e member
    rw [decide_eq_true positive, Bool.true_and, decide_eq_decide]
    exact ⟨fun h => (Nat.lt_min.1 h).2, fun h => Nat.lt_min.2 ⟨inRange, h⟩⟩
  rw [rows_eq_map_listed, listed]

end PercentileGrouping

theorem getElem?_percentileRow {width p : Nat} (within : p < width) {percentiles : Table Nat Int64}
    {v : Int64} (here : percentiles.get? p = some v) (stats : List Float) :
    (percentileRow width percentiles stats)[p]? = some (ofInt64 v) := by
  have placed : (percentiles.map fun _ v => ofInt64 v).get? p = some (ofInt64 v) := by
    rw [Table.get?_map, here]
    rfl
  exact getElem?_spliceFrom placed (Nat.zero_le p) (by omega) stats

namespace PercentileGrouping

/-- Each cell shows the number of what answers the test of the rounded rank, which is that of the exact
nearest rank exactly when the two tests agree on every number of the group below the greatest. -/
theorem collect_nearestRank_iff {g : PercentileGrouping} (built : g.Built)
    (counts : g.countStat = .count) {s : Session} (inStep : s.InStep) (sound : s.failAfter = none)
    (few : s.entries.length ≤ 2 ^ 53) {keys : KeyMap}
    (ids : ∀ e ∈ keys.toList, 0 < e.1 ∧ e.1 < s.groupCount) {refs : List StatRef}
    (live : ∀ ref ∈ refs, s.stack.isValid ref = true) {deadline : Deadline}
    (inTime : deadline.missed = false) :
    ∃ (rows : List ResultRow) (t : Session), (g.collect keys refs deadline).on s = (.ok (rows.map .ok), t) ∧
      List.Forall₂ (fun e row => row.key = e.2 ∧
        ∀ q ∈ g.queries, q.position < refs.length + g.queries.length →
          ∃ v w, row.values[q.position]? = some (ofInt64 v) ∧
            Answers (q.Crossed (s.population e.1)) (s.integers q.field e.1) v ∧
            Answers (q.Reached (s.population e.1)) (s.integers q.field e.1) w ∧
            (ofInt64 v = ofInt64 w ↔ ∀ u ∈ s.integers q.field e.1,
              (∃ x ∈ s.integers q.field e.1, ofInt64 u < ofInt64 x) →
                (q.Crossed (s.population e.1) (numberRank (s.integers q.field e.1) u) ↔
                  q.Reached (s.population e.1) (numberRank (s.integers q.field e.1) u))))
        (keys.toList.filter fun e => e.1 < idBound) rows := by
  obtain ⟨found, ordinary, collected, length, each⟩ :=
    on_collect inStep sound few inTime ids built counts live
  refine ⟨_, _, collected, ?_⟩
  rw [g.rows_eq ids, List.forall₂_map_right_iff, List.forall₂_same]
  intro e listed
  have member := List.mem_of_mem_filter listed
  obtain ⟨cells, entered, placed⟩ := each e member
  refine ⟨rfl, ?_⟩
  intro q queried within
  have live : e.1 ≠ 0 := Nat.ne_of_gt (ids e member).1
  have short : (s.integers q.field e.1).length ≤ 2 ^ 53 :=
    Nat.le_trans (s.length_integers_le q.field e.1) few
  have answer := Session.answers_crossed inStep few q.field live (q.target (s.population e.1))
  obtain ⟨w, exact⟩ := exists_answers (q.Reached (s.population e.1)) (s.integers q.field e.1)
  refine ⟨s.crossed q.field e.1 (q.target (s.population e.1)), w, ?_, answer, exact, ?_⟩
  · rw [entered, length]
    exact getElem?_percentileRow within (placed q queried) _
  · apply Answers.number_eq_iff _ _ answer exact
    · intro a b h below
      exact PercentileQuery.crossed_mono h (Nat.le_trans below short)
    · intro a b h _
      exact PercentileQuery.reached_mono h

/-- Documents with the integers from 1 to 25. -/
def graded : Session :=
  .new 0 ((List.range 25).map fun i => ⟨[("x", .int (Int64.ofNat (i + 1)))]⟩) .standard

def lowerQuery : PercentileQuery := ⟨⟨"x", .int⟩, 28, 0⟩

def lowerGrouping : PercentileGrouping := ⟨.count, [lowerQuery]⟩

/-- The rounded rank is above 7, which is the exact one. -/
theorem collect_nearestRank_iff_of_graded : lowerGrouping.Built ∧ lowerGrouping.countStat = .count ∧
    graded.InStep ∧ graded.failAfter = none ∧ graded.entries.length ≤ 2 ^ 53 ∧
    (∀ e ∈ KeyMap.initial.toList, 0 < e.1 ∧ e.1 < graded.groupCount) ∧ Deadline.none.missed = false ∧
    Answers (lowerQuery.Reached 25) (graded.integers lowerQuery.field 1) 7 ∧
    ∃ (row : ResultRow) (t : Session),
      (lowerGrouping.collect .initial [] .none).on graded = (.ok [.ok row], t) ∧
        row.values[0]? = some (ofInt64 8) ∧ ofInt64 8 ≠ ofInt64 7 := by
  have added : (PercentileGrouping.new .count).add lowerQuery = .ok lowerGrouping := by rfl
  have built : lowerGrouping.Built := .add (.new .count) added
  have inStep : graded.InStep := ⟨rfl, by decide⟩
  have few : graded.entries.length ≤ 2 ^ 53 := by decide
  have ids : ∀ e ∈ KeyMap.initial.toList, 0 < e.1 ∧ e.1 < graded.groupCount := by decide
  have inTime : Deadline.none.missed = false := rfl
  have exact : Answers (lowerQuery.Reached 25) (graded.integers lowerQuery.field 1) 7 := by
    apply Answers.reached
    · decide +kernel
    · decide +kernel
    · have each : (graded.integers lowerQuery.field 1).all (fun u =>
          lowerQuery.Reached 25 (rank (graded.integers lowerQuery.field 1) u) → 7 ≤ u) = true := by
        decide +kernel
      intro u member
      exact of_decide_eq_true (List.all_eq_true.1 each u member)
  have rounded : Answers (lowerQuery.Crossed 25) (graded.integers lowerQuery.field 1) 8 := by
    apply Answers.reached
    · decide +kernel
    · decide +kernel
    · have each : (graded.integers lowerQuery.field 1).all (fun u =>
          lowerQuery.Crossed 25 (rank (graded.integers lowerQuery.field 1) u) → 8 ≤ u) = true := by
        decide +kernel
      intro u member
      exact of_decide_eq_true (List.all_eq_true.1 each u member)
  obtain ⟨rows, t, collected, shown⟩ :=
    collect_nearestRank_iff built rfl inStep rfl few ids (List.forall_mem_nil _) inTime
  have listed : (KeyMap.initial.toList.filter fun e => e.1 < idBound) = [(1, .root)] := rfl
  rw [listed] at shown
  obtain ⟨row, others, here, nothing, rfl⟩ := List.forall₂_cons_left_iff.1 shown
  cases nothing
  obtain ⟨v, w, cell, answer, -⟩ := here.2 lowerQuery List.mem_cons_self Nat.one_pos
  have population : graded.population 1 = 25 := by decide
  rw [population] at answer
  refine ⟨built, rfl, inStep, rfl, few, ids, inTime, exact, row, t, collected, ?_, by decide +kernel⟩
  rw [← answer.unique rounded]
  exact cell

end PercentileGrouping
end Rollup
