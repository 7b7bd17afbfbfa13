import Rollup.Settings
import Rollup.Term

namespace Rollup

structure FieldOptions where
  /-- Zero for no bound. -/
  topK : Nat := 0
  /-- None for the statistic of the settings. -/
  sortStat : Option Stat := none
  bottom : Bool := false
  /-- Lists the terms without making a group of each. -/
  noExplode : Bool := false

namespace FieldOptions

def top (k : Nat) : FieldOptions := { topK := k }

def lowest (k : Nat) : FieldOptions := { topK := k, bottom := true }

def unexploded : FieldOptions := { noExplode := true }

end FieldOptions

inductive SplitMode where
  | topK (k : Nat)
  | passthrough
  | explode
  deriving DecidableEq

structure FieldGrouping where
  field : Field
  topK : Nat
  sortStat : Stat
  bottom : Bool
  noExplode : Bool

namespace FieldGrouping

def new (field : Field) (options : FieldOptions) (settings : Settings) :
    Except Fault FieldGrouping :=
  if settings.groupLimit < options.topK then
    .error (.topKExceedsLimit field.name options.topK settings.groupLimit)
  else
    .ok
      { field := field
        topK := options.topK
        sortStat := options.sortStat.getD settings.sortStat
        bottom := options.bottom
        noExplode := options.noExplode }

def explode (field : Field) (settings : Settings) : Except Fault FieldGrouping :=
  new field {} settings

/-- A bound on the terms wins over listing them without groups. -/
def mode (g : FieldGrouping) : SplitMode :=
  if 0 < g.topK then .topK g.topK
  else if g.noExplode then .passthrough
  else .explode

end FieldGrouping

structure PercentileQuery where
  field : Field
  percentile : Float
  /-- The column it occupies in each row. -/
  position : Nat
  deriving DecidableEq

structure PercentileGrouping where
  countStat : Stat
  queries : List PercentileQuery

namespace PercentileGrouping

def new (countStat : Stat) : PercentileGrouping := ⟨countStat, []⟩

/-- A percentile lies from 0 to 100, which NaN does not, and no two share a column. -/
def add (g : PercentileGrouping) (q : PercentileQuery) : Except Fault PercentileGrouping :=
  if !(0 ≤ q.percentile && q.percentile ≤ 100) then
    .error (.invalidSetting (.percentileOutOfRange q.percentile q.field.name))
  else if g.queries.any (·.position == q.position) then
    .error (.invalidSetting (.positionTaken q.position))
  else .ok { g with queries := g.queries ++ [q] }

/-- The fields that are asked about, each where it first appears. -/
def fields (g : PercentileGrouping) : List Field := (g.queries.map (·.field)).eraseDups

end PercentileGrouping

/-- Carries what a difference of a field's best terms under two filters would need; it is never run. -/
structure DiffGrouping where
  field : Field
  filter1 : Stat
  filter2 : Stat
  topK : Nat

inductive Grouping where
  | field (g : FieldGrouping)
  | percentile (g : PercentileGrouping)
  | diff (g : DiffGrouping)

namespace Grouping

def display : Grouping → String
  | field g => "field grouping on " ++ g.field.name
  | percentile g =>
    let n := g.queries.length
    s!"percentile grouping ({n} queries)"
  | diff g => "diff grouping on " ++ g.field.name

/-- How many columns a grouping adds to each row. -/
def percentileCount : Grouping → Nat
  | percentile g => g.queries.length
  | _ => 0

end Grouping
end Rollup
