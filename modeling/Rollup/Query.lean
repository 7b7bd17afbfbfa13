import Rollup.Grouping.Stage

namespace Rollup

structure Query where
  stats : List (String × Stat)
  groupings : List Grouping

structure ResultTable where
  columns : List String
  rows : List ResultRow
  deriving DecidableEq

namespace Query

def empty : Query := ⟨[], []⟩

def named (q : Query) (name : String) (stat : Stat) : Query :=
  { q with stats := q.stats ++ [(name, stat)] }

/-- A statistic without a name of its own is named by its text. -/
def stat (q : Query) (stat : Stat) : Query := q.named stat.display stat

def grouping (q : Query) (g : Grouping) : Query := { q with groupings := q.groupings ++ [g] }

/-- The position and name of a percentile's column. -/
def percentileColumn (q : PercentileQuery) : Nat × String :=
  let shown := Number.Shortest.text q.percentile
  (q.position, "percentile(" ++ q.field.name ++ ", " ++ shown ++ ")")

/-- The statistics by name, and the percentiles of the last grouping at their positions. -/
def layout (q : Query) : Except Fault Layout :=
  let percentiles := match q.groupings.getLast? with
    | some (.percentile g) => g.queries.map percentileColumn
    | _ => []
  Layout.ofColumns (q.stats.map (·.1)) percentiles

def pushAll : List (String × Stat) → Action Session (List StatRef)
  | [] => return []
  | (_, stat) :: rest => do
    let ref ← Session.push stat
    let refs ← pushAll rest
    return ref :: refs

/-- Splits by one grouping after the other, looking at the clock after each. -/
def regroupAll (deadline : Deadline) : List Grouping → KeyMap → Action Session KeyMap
  | [], keys => return keys
  | g :: rest, keys => do
    let children ← Action.beside (Stage.new g) (Stage.regroup keys)
    Action.ofExcept deadline.check
    regroupAll deadline rest children

/-- One row per group of a key map, with the value of every statistic. -/
def ungroupedRows (keys : KeyMap) (refs : List StatRef) (s : Session) :
    Except Fault (List ResultRow) := do
  let perStat ← refs.mapM s.groupStats
  return keys.toList.map fun e => ⟨e.2, perStat.map (·.getD e.1 0)⟩

def run (q : Query) (deadline : Deadline) : Action Session ResultTable := do
  let layout ← Action.ofExcept q.layout
  let refs ← pushAll q.stats
  match q.groupings.getLast? with
  | none =>
    let rows ← Action.ofExcept (ungroupedRows .initial refs (← get))
    return ⟨layout.names, rows⟩
  | some last =>
    let keys ← regroupAll deadline q.groupings.dropLast .initial
    let listed ← Action.beside (Stage.new last) (Stage.collect keys refs deadline)
    let rows ← Action.ofExcept (assemble [listed])
    return ⟨layout.names, rows⟩

/-- Pops up to `n` statistics, stopping at the first failure. -/
def unwind : Nat → Action Session Unit
  | 0 => return ()
  | n + 1 => do
    Session.pop
    unwind n

/-- Runs a query and pops what it pushed. Its own failure is reported before one of the popping. The clock stands
still from the start to the end, so a limit that passes between two looks at it is not told of here. -/
def execute (q : Query) (settings : Settings) : Action Session ResultTable := do
  Action.ofExcept settings.validate
  let before := (← get).stack.size
  let result ← Action.attempt (q.run (.ofSettings settings))
  let unwound ← Action.attempt (unwind ((← get).stack.size - before))
  let table ← Action.ofExcept result
  Action.ofExcept unwound
  return table

end Query
end Rollup
