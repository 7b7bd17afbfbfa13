import Rollup.Proofs.Number.Counting
import Rollup.Proofs.Query.Push
import Rollup.Proofs.Session.Split

namespace Rollup
open Number.Binary64

theorem inUnits_zero : (0 : Float).isFinite = true ∧ inUnits 0 = 0 := by
  constructor
  · decide +kernel
  · decide +kernel

/-- A sum of integers stays below overflow however many there are: the next one does not move a sum that
is far larger. -/
theorem sum_bounded (values : List Int64) :
    (sum values).isFinite = true ∧ (inUnits (sum values)).natAbs ≤ 2 ^ (53 + 1138) := by
  have general (values : List Int64) (t : Float) (finite : t.isFinite = true)
      (bound : (inUnits t).natAbs ≤ 2 ^ (53 + 1138)) :
      (values.foldl (fun t v => t + ofInt64 v) t).isFinite = true ∧
        (inUnits (values.foldl (fun t v => t + ofInt64 v) t)).natAbs ≤ 2 ^ (53 + 1138) := by
    induction values generalizing t with
    | nil => exact ⟨finite, bound⟩
    | cons v rest ih =>
      obtain ⟨vFinite, vBound⟩ := ofInt64_bounded v
      have small : (inUnits (ofInt64 v)).natAbs < 2 ^ 1138 := by
        apply Nat.lt_of_le_of_lt vBound
        exact two_pow_lt_two_pow (by omega)
      obtain ⟨nextFinite, nextBound⟩ := add_bounded finite vFinite (by omega) bound small
      exact ih _ nextFinite nextBound
  apply general values 0 inUnits_zero.1
  rw [inUnits_zero.2]
  exact Nat.zero_le _

/-- Totals are numbers: the sums are finite, and so a combination of two of them is not undefined. -/
theorem Stat.isNaN_total (rs : List Reading) (stat : Stat) : (stat.total rs).isNaN = false := by
  cases stat with
  | combination op left right => exact isNaN_combine op (sum_bounded _).1 (sum_bounded _).1
  | _ => exact isNaN_of_isFinite (sum_bounded _).1

namespace Session
namespace Scored

theorem le_trans (bottom : Bool) (a b c : Scored) (first : Scored.le bottom a b)
    (second : Scored.le bottom b c) : Scored.le bottom a c := by
  cases bottom with
  | true => exact Number.Order.totalLe_trans _ _ _ first second
  | false => exact Number.Order.totalLe_trans _ _ _ second first

theorem le_total (bottom : Bool) (a b : Scored) :
    (Scored.le bottom a b || Scored.le bottom b a) = true := by
  cases bottom with
  | true => exact Number.Order.totalLe_total _ _
  | false => exact Number.Order.totalLe_total _ _

end Scored

/-- The terms of a group in their order, each with the total over its documents. -/
def scored (f : Field) (stat : Stat) (group : GroupId) (s : Session) : List Scored :=
  ((s.cellTotals f).keys.filter (·.group = group)).map fun c => ⟨stat.total (s.inCell f c), c.term⟩

section Scored
variable (f : Field) (stat : Stat) (group : GroupId) (s : Session)

theorem pairwise_scored : (s.scored f stat group).Pairwise fun a b => compare a.term b.term = .lt := by
  rw [scored, List.pairwise_map]
  exact Cell.pairwise_term (s.cellTotals f).keys_ascending group

theorem isNaN_scored : ∀ a ∈ s.scored f stat group, a.score.isNaN = false := by
  intro a member
  obtain ⟨c, -, rfl⟩ := List.mem_map.1 member
  exact stat.isNaN_total (s.inCell f c)

end Scored

theorem isSome_get?_cellTotals (s : Session) (f : Field) (c : Cell) :
    ((s.cellTotals f).get? c).isSome ↔ ∃ e ∈ s.entries, e.cell? f = some c := by
  rw [Option.isSome_iff_exists]
  constructor
  · intro present
    obtain ⟨row, found⟩ := present
    exact ((s.get?_cellTotals_eq_some_iff f c row).1 found).1
  · intro somebody
    exact ⟨_, (s.get?_cellTotals_eq_some_iff f c _).2 ⟨somebody, rfl⟩⟩

theorem inCell_pushed (f : Field) (c : Cell) (stat : Stat) (s : Session) :
    (s.pushed stat).inCell f c = (s.inCell f c).map (Reading.extended stat) := by
  have entries : (s.pushed stat).entries = s.entries.map (Entry.pushed stat) := rfl
  rw [inCell, inCell, entries, List.filter_map, List.map_map, List.map_map]
  rfl

theorem members_pushed (g : GroupId) (stat : Stat) (s : Session) :
    (s.pushed stat).members g = (s.members g).map (Reading.extended stat) := by
  have entries : (s.pushed stat).entries = s.entries.map (Entry.pushed stat) := rfl
  rw [members, members]
  by_cases outside : g = 0
  · rw [if_pos outside, if_pos outside]
    rfl
  · rw [if_neg outside, if_neg outside, entries, List.filter_map, List.map_map, List.map_map]
    rfl

/-- A push does not change which cells there are. -/
theorem keys_cellTotals_pushed (f : Field) (stat : Stat) (s : Session) :
    ((s.pushed stat).cellTotals f).keys = (s.cellTotals f).keys := by
  apply Table.keys_eq_of_isSome
  intro c
  rw [Bool.eq_iff_iff, isSome_get?_cellTotals, isSome_get?_cellTotals]
  constructor
  · intro somebody
    obtain ⟨e, member, cell⟩ := somebody
    obtain ⟨e', member', rfl⟩ := List.mem_map.1 member
    exact ⟨e', member', cell⟩
  · intro somebody
    obtain ⟨e, member, cell⟩ := somebody
    exact ⟨e.pushed stat, List.mem_map_of_mem member, cell⟩

section Pushed
variable {s : Session} (inStep : s.InStep)

include inStep in
/-- The handle of a pushed statistic has its total over the documents of a group. -/
theorem total_members_pushed (stat : Stat) (g : GroupId) :
    (s.stack.push stat.shape).1.total ((s.pushed stat).members g) = stat.total (s.members g) := by
  have depths : ∀ r ∈ s.members g, r.slots.length = s.stack.depth := by
    intro r member
    rw [members] at member
    by_cases outside : g = 0
    · rw [if_pos outside] at member
      cases member
    · rw [if_neg outside] at member
      obtain ⟨e, inGroup, rfl⟩ := List.mem_map.1 member
      rw [inStep.slots e (List.mem_of_mem_filter inGroup), inStep.width]
  rw [s.members_pushed g stat]
  exact total_handle depths stat []

include inStep in
/-- The handle of a pushed statistic reads its total over the documents of a cell. -/
theorem read_cellTotals_pushed (f : Field) (stat : Stat) {c : Cell} {row : List Float}
    (member : (c, row) ∈ ((s.pushed stat).cellTotals f).toList) :
    (s.stack.push stat.shape).1.read row = stat.total (s.inCell f c) := by
  have found := (((s.pushed stat).cellTotals f).mem_toList_iff c row).1 member
  have live : (s.pushed stat).stack.isValid (s.stack.push stat.shape).1 = true :=
    s.stack.isValid_push stat.shape
  have depths : ∀ r ∈ s.inCell f c, r.slots.length = s.stack.depth := by
    intro r member
    obtain ⟨e, inCell, rfl⟩ := List.mem_map.1 member
    rw [inStep.slots e (List.mem_of_mem_filter inCell), inStep.width]
  rw [read_cellTotals (inStep.pushed stat) live found, s.inCell_pushed f c stat]
  exact total_handle depths stat []

include inStep in
/-- What is read from the rows of a group's cells are the totals of its terms. -/
theorem map_cellTotals_pushed {α : Type} (f : Field) (stat : Stat) (group : GroupId)
    (make : Float → Term → α) :
    (((s.pushed stat).cellTotals f).toList.filter (·.1.group = group)).map
        (fun e => make ((s.stack.push stat.shape).1.read e.2) e.1.term) =
      (s.scored f stat group).map fun a => make a.score a.term := by
  rw [scored, ← keys_cellTotals_pushed f stat s, Table.keys, List.filter_map, List.map_map, List.map_map]
  apply List.map_congr_left
  intro e member
  obtain ⟨c, row⟩ := e
  have value := read_cellTotals_pushed inStep f stat (List.mem_of_mem_filter member)
  show make _ c.term = make _ c.term
  rw [value]

end Pushed

/-- The scores of a live group are what its cells read. -/
theorem getD_get?_scores {keys : KeyMap} {group : GroupId} (live : keys.contains group = true)
    (ref : StatRef) (totals : Table Cell (List Float)) :
    ((scores keys ref totals).get? group).getD [] =
      (totals.toList.filter (·.1.group = group)).map fun e => ⟨ref.read e.2, e.1.term⟩ := by
  rw [scores, Table.getD_get?_foldl_append
    (fun e : Cell × List Float => if keys.contains e.1.group then some e.1.group else none)
    fun e => Scored.mk (ref.read e.2) e.1.term]
  · apply congrArg
    apply List.filter_congr
    intro e _
    by_cases here : e.1.group = group
    · simp [here, live]
    · simp [here]
  · intro ranked e
    by_cases counted : keys.contains e.1.group = true
    · rw [if_pos counted, if_pos counted]
    · rw [if_neg counted, if_neg counted]

/-- The best terms of every group, as they are chosen once the sort statistic is pushed. -/
def choiceOfBest (f : Field) (keys : KeyMap) (k : Nat) (stat : Stat) (bottom : Bool) (s : Session) :
    Choice :=
  (scores keys (s.stack.push stat.shape).1 ((s.pushed stat).cellTotals f)).map fun _ terms =>
    Scored.best k bottom terms

/-- The best terms of a group are chosen among those that have scores; without scores there are none. -/
theorem getD_get?_map_best (ranked : Table GroupId (List Scored)) (k : Nat) (bottom : Bool)
    (group : GroupId) :
    ((ranked.map fun _ terms => Scored.best k bottom terms).get? group).getD [] =
      Scored.best k bottom ((ranked.get? group).getD []) := by
  rw [Table.get?_map]
  cases ranked.get? group with
  | none =>
    have nothing : stableSort (Scored.le bottom) [] = [] := rfl
    show [] = ((stableSort (Scored.le bottom) []).take k).map (·.term)
    rw [nothing, List.take_nil, List.map_nil]
  | some terms => rfl

theorem getD_get?_choiceOfBest {s : Session} (inStep : s.InStep) (f : Field) {keys : KeyMap}
    {group : GroupId} (live : keys.contains group = true) (k : Nat) (stat : Stat) (bottom : Bool) :
    ((s.choiceOfBest f keys k stat bottom).get? group).getD [] =
      Scored.best k bottom (s.scored f stat group) := by
  have totals := map_cellTotals_pushed inStep f stat group Scored.mk
  rw [List.map_id'' (fun a => rfl)] at totals
  rw [choiceOfBest, getD_get?_map_best, getD_get?_scores live, totals]

theorem on_splitTopK {s : Session} (inStep : s.InStep) {stat : Stat} (built : stat.Built)
    {tokens : List Token} (compiled : stat.compile s.scope = .ok tokens) (f : Field) (keys : KeyMap)
    (k : Nat) (bottom : Bool) :
    (splitTopK f keys k stat bottom).on s =
      (split f keys (s.choiceOfBest f keys k stat bottom)).on (s.restamped stat.width) := by
  rw [splitTopK, Action.on_bind_ok (on_push inStep built compiled),
    Action.on_bind_ok (Action.on_get _), Action.on_bind_ok (on_pop_pushed inStep stat)]
  rfl

/-- A split by the best terms makes a child of each, group by group. -/
theorem values_of_on_splitTopK {s s' : Session} (inStep : s.InStep) {stat : Stat} (built : stat.Built)
    {f : Field} {keys children : KeyMap} {k : Nat} {bottom : Bool}
    (h : (splitTopK f keys k stat bottom).on s = (.ok children, s')) :
    (∃ tokens, stat.compile s.scope = .ok tokens) ∧
      children.values = keys.toList.flatMap fun e =>
        (Scored.best k bottom (s.scored f stat e.1)).map e.2.child := by
  cases compiled : stat.compile s.scope with
  | error e =>
    rw [splitTopK, Action.on_bind_error (on_push_of_error compiled)] at h
    cases h
  | ok tokens =>
    refine ⟨⟨tokens, rfl⟩, ?_⟩
    rw [on_splitTopK inStep built compiled, on_split] at h
    by_cases full : (s.restamped stat.width).groupLimit <
        (s.choiceOfBest f keys k stat bottom).size + 1
    · rw [if_pos full] at h
      cases h
    · rw [if_neg full] at h
      cases h
      rw [Child.values_keyMap, Choice.children, List.map_flatMap]
      apply List.flatMap_congr
      intro e member
      obtain ⟨group, key⟩ := e
      have live : keys.contains group = true := Table.contains_of_mem member
      rw [getD_get?_choiceOfBest inStep f live, List.map_map]
      rfl

end Session
end Rollup
