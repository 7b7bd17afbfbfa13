import Rollup.Number.Binary64
import Rollup.Stream.Basic

namespace Rollup

/-- The state of one group: its targets, the term found for each, the count so far and the last term. -/
structure Tracker where
  targets : List Float
  found : List (Option Int64)
  count : Int64
  last : Option Int64
  deriving DecidableEq

namespace Tracker

def start (targets : List Float) : Tracker := ⟨targets, targets.map fun _ => none, 0, none⟩

/-- A target is reached by the count that first is no less than it. -/
def reaches (before after : Int64) (target : Float) : Bool :=
  Number.Binary64.ofInt64 before < target && target ≤ Number.Binary64.ofInt64 after

/-- Adds a term that is counted `n` times. -/
def see (term n : Int64) (t : Tracker) : Tracker :=
  let after := t.count + n
  { t with
    found := t.found.zipWith (fun found target =>
      if reaches t.count after target then some term else found) t.targets
    count := after
    last := some term }

/-- A target that was never reached takes the last term, or zero where there was none. -/
def answers (t : Tracker) : List Int64 := t.found.map fun found => found.getD (t.last.getD 0)

end Tracker

namespace Crossing

def start (targets : Table GroupId (List Float)) : Table GroupId Tracker :=
  targets.map fun _ ts => .start ts

/-- Groups without targets are not tracked. -/
def see (countRef : StatRef) (term : Int64) (group : GroupId) (stats : List Float)
    (trackers : Table GroupId Tracker) : Table GroupId Tracker :=
  match trackers.get? group with
  | none => trackers
  | some t =>
    trackers.insert group (t.see term (Number.Binary64.round (countRef.read stats)))

/-- Takes in integer terms and refuses texts, which have no rank. -/
def sink (countRef : StatRef) : Sink (Table GroupId Tracker) where
  int _ term group stats := modify (see countRef term group stats)
  text field _ _ _ := throw (.textTermUnsupported field)

def count (trackers : Table GroupId Tracker) (group : GroupId) : Int64 :=
  ((trackers.get? group).map (·.count)).getD 0

def answers (trackers : Table GroupId Tracker) : Table GroupId (List Int64) :=
  trackers.map fun _ t => t.answers

end Crossing
end Rollup
