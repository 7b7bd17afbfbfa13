import Rollup.Grouping.Basic
import Rollup.Output.Layout
import Rollup.Session.Split
import Rollup.Stream.Best
import Rollup.Stream.Crossing

namespace Rollup

namespace FieldGrouping

def regroup (g : FieldGrouping) (keys : KeyMap) : Action Session KeyMap :=
  match g.mode with
  | .topK k => Session.splitTopK g.field keys k g.sortStat g.bottom
  | .passthrough => Session.keep keys
  | .explode => Session.splitExplode g.field keys

/-- The row of a record, unless its group has no key. -/
def row? (keys : KeyMap) (refs : List StatRef) (r : Record) : Option ResultRow :=
  (keys.get? r.group).map fun parent => ⟨parent.child r.term, refs.map (·.read r.stats)⟩

/-- Lists the rows of a stream one at a time. A missed deadline takes the place of a record and does not
count it as seen. -/
def listFrom (keys : KeyMap) (refs : List StatRef) (deadline : Deadline) :
    Nat → Stream → List (Except Fault ResultRow)
  | _, [] => []
  | seen, item :: rest =>
    match (if deadline.due seen then deadline.check else .ok ()), item with
    | .error e, _ => .error e :: listFrom keys refs deadline seen rest
    | .ok (), .error e => .error e :: listFrom keys refs deadline (seen + 1) rest
    | .ok (), .ok r =>
      match row? keys refs r with
      | some row => .ok row :: listFrom keys refs deadline (seen + 1) rest
      | none => listFrom keys refs deadline (seen + 1) rest

/-- Takes in the rows of a stream, the last one first. -/
def rowSink (keys : KeyMap) (refs : List StatRef) : Sink (List ResultRow) :=
  .collecting fun r rows => (row? keys refs r).toList ++ rows

/-- Ranks by the sort statistic, which is pushed for as long as the stream is read. A failure to read
the stream is reported before a failure to pop. -/
def collectTopK (g : FieldGrouping) (k : Nat) (keys : KeyMap) (refs : List StatRef)
    (deadline : Deadline) : Action Session (List ResultRow) := do
  let sortRef ← Session.push g.sortStat
  let selection : Selection := ⟨k, g.bottom, sortRef, refs, keys⟩
  let board := selection.sink.result deadline ((← get).stream [g.field]) .empty
  let popped ← Action.attempt Session.pop
  let rows ← Action.ofExcept (selection.rows <$> board)
  Action.ofExcept popped
  return rows

def collect (g : FieldGrouping) (keys : KeyMap) (refs : List StatRef) (deadline : Deadline) :
    Action Session (List (Except Fault ResultRow)) :=
  if keys.isEmpty then return []
  else
    match g.mode with
    | .topK k => do
      let rows ← g.collectTopK k keys refs deadline
      return rows.map .ok
    | .passthrough => do
      let s ← get
      return listFrom keys refs deadline 0 (s.stream [g.field])
    | .explode => do
      let s ← get
      let rows ← Action.ofExcept ((rowSink keys refs).result deadline (s.stream [g.field]) [])
      return rows.reverse.map .ok

end FieldGrouping

namespace PercentileGrouping

/-- The percentiles found so far for each group, by column. -/
abbrev Found := Table GroupId (Table Nat Int64)

/-- The count that each percentile stands for in each group. -/
def targets (keys : KeyMap) (counts : List Int64) (percentiles : List Float) :
    Table GroupId (List Float) :=
  keys.map fun group _ =>
    let total := Number.Binary64.ofInt64 (counts.getD group 0)
    percentiles.map fun p => p / 100 * total

/-- Enters the answers of one field's queries under their columns. -/
def enter (queries : List PercentileQuery) (answers : Table GroupId (List Int64)) (found : Found) :
    Found :=
  answers.toList.foldl (fun found e =>
    found.update e.1 fun old =>
      (e.2.zip queries).foldl (fun cells c => cells.insert c.2.position c.1) (old.getD .empty)) found

/-- Answers the queries on one field, reading it through its integer view. -/
def answerField (g : PercentileGrouping) (s : Session) (keys : KeyMap) (countRef : StatRef)
    (counts : List Int64) (deadline : Deadline) (found : Found) (f : Field) : Except Fault Found := do
  let queries := g.queries.filter (·.field == f)
  let start := Crossing.start (targets keys counts (queries.map (·.percentile)))
  let trackers ← (Crossing.sink countRef).result deadline (s.stream [f.asInt]) start
  return enter queries (Crossing.answers trackers) found

def answer (g : PercentileGrouping) (s : Session) (keys : KeyMap) (countRef : StatRef)
    (deadline : Deadline) : Except Fault Found := do
  let totals ← s.groupStats countRef
  let counts := totals.map Number.Binary64.round
  g.fields.foldlM (g.answerField s keys countRef counts deadline) (keys.map fun _ _ => .empty)

/-- Group ids end below this bound. -/
def idBound : Nat := 4294967295

/-- The rows of the groups that the session has, by group id. -/
def rows (g : PercentileGrouping) (s : Session) (keys : KeyMap) (found : Found)
    (ordinary : List (List Float)) : List ResultRow :=
  let width := ordinary.length + g.queries.length
  keys.toList.filterMap fun e =>
    if 0 < e.1 && e.1 < Nat.min s.groupCount idBound then
      some ⟨e.2, percentileRow width ((found.get? e.1).getD .empty) (ordinary.map (·.getD e.1 0))⟩
    else none

/-- Counts by the count statistic, which is pushed for as long as the percentiles are looked for. -/
def collect (g : PercentileGrouping) (keys : KeyMap) (refs : List StatRef) (deadline : Deadline) :
    Action Session (List (Except Fault ResultRow)) := do
  let countRef ← Session.push g.countStat
  let answered := g.answer (← get) keys countRef deadline
  let popped ← Action.attempt Session.pop
  let found ← Action.ofExcept answered
  Action.ofExcept popped
  let s ← get
  let ordinary ← Action.ofExcept (refs.mapM s.groupStats)
  return (g.rows s keys found ordinary).map .ok

end PercentileGrouping

namespace Grouping

/-- Splits the groups of a key map and yields the new ones. -/
def regroup (g : Grouping) (keys : KeyMap) : Action Session KeyMap :=
  match g with
  | .field f => f.regroup keys
  | .percentile _ => throw (.unsupported g.display .regroup .percentileNotLast)
  | .diff _ => throw (.unsupported g.display .regroup .diffNotRewritten)

/-- Yields the rows of the groups of a key map, one value per statistic beside the grouping's own
columns. -/
def collect (g : Grouping) (keys : KeyMap) (refs : List StatRef) (deadline : Deadline) :
    Action Session (List (Except Fault ResultRow)) := do
  let s ← get
  refs.forM fun ref => Action.ofExcept (s.stack.requireValid ref)
  match g with
  | .field f => f.collect keys refs deadline
  | .percentile p => p.collect keys refs deadline
  | .diff _ => throw (.unsupported g.display .collect .diffNotRewritten)

end Grouping
end Rollup
