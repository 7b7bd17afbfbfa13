import Rollup.Number.Order
import Rollup.Ranking
import Rollup.Session.Push
import Rollup.Session.Totals

namespace Rollup

/-- The terms chosen for each parent group, in order. -/
abbrev Choice := Table GroupId (List Term)

/-- A new group: the parent group and the term it comes from, and its key. -/
structure Child where
  parent : GroupId
  term : Term
  key : Key
  deriving DecidableEq

namespace Choice

/-- How many terms are chosen. -/
def size (c : Choice) : Nat := c.values.flatten.length

/-- The children that a choice makes of the groups of a key map, in the order of their ids. -/
def children (c : Choice) (keys : KeyMap) : List Child :=
  keys.toList.flatMap fun e => ((c.get? e.1).getD []).map fun t => ⟨e.1, t, e.2.child t⟩

def add (c : Choice) (group : GroupId) (t : Term) : Choice :=
  c.update group fun old => old.getD [] ++ [t]

end Choice

namespace Child

/-- The key map of numbered children. -/
def keyMap (children : List (Child × GroupId)) : KeyMap :=
  children.foldl (fun keys c => keys.insert c.2 c.1.key) .empty

/-- The id of the child for each parent and term. -/
def ids (children : List (Child × GroupId)) : Table Cell GroupId :=
  children.foldl (fun ids c => ids.insert ⟨c.1.term, c.1.parent⟩ c.2) .empty

end Child

/-- Moves an entry into the child for its group and term, or out of all groups. -/
def Entry.move (f : Field) (ids : Table Cell GroupId) (e : Entry) : Entry :=
  { e with group := ((e.doc.term? f).bind fun t => ids.get? ⟨t, e.group⟩).getD 0 }

namespace Session

/-- Splits the groups of a key map as chosen, unless that makes more groups than the limit allows. -/
def split (f : Field) (keys : KeyMap) (choice : Choice) : Action Session KeyMap := do
  let s ← get
  if s.groupLimit < choice.size + 1 then
    throw (.groupLimitExceeded choice.size s.groupLimit)
  else
    let children := (choice.children keys).zipIdx 1
    set { s with
      entries := s.entries.map (Entry.move f (Child.ids children))
      groupCount := children.length + 1 }
    return Child.keyMap children

/-- Keeps every group of a key map as it is and drops the documents of all others. -/
def keep (keys : KeyMap) : Action Session KeyMap := do
  modify fun s => { s with
    entries := s.entries.map fun (e : Entry) =>
      if keys.contains e.group then e else { e with group := 0 } }
  return keys

/-- A term and its score. -/
structure Scored where
  score : Float
  term : Term

/-- Whether one score comes no later than another: the greatest first, or the least first. -/
def Scored.le (bottom : Bool) (a b : Scored) : Bool :=
  if bottom then Number.Order.totalLe a.score b.score else Number.Order.totalLe b.score a.score

/-- The terms of each group of a key map with their scores, in term order. -/
def scores (keys : KeyMap) (ref : StatRef) (totals : Table Cell (List Float)) :
    Table GroupId (List Scored) :=
  totals.toList.foldl (fun ranked e =>
    if keys.contains e.1.group then
      ranked.update e.1.group fun old => old.getD [] ++ [⟨ref.read e.2, e.1.term⟩]
    else ranked) .empty

/-- The best `k` terms; equal scores stay in term order. -/
def Scored.best (k : Nat) (bottom : Bool) (terms : List Scored) : List Term :=
  ((stableSort (Scored.le bottom) terms).take k).map (·.term)

/-- Splits every group of a key map by its best `k` terms. The sort statistic is pushed for the ranking
only. -/
def splitTopK (f : Field) (keys : KeyMap) (k : Nat) (sortStat : Stat) (bottom : Bool) :
    Action Session KeyMap := do
  let ref ← push sortStat
  let totals := (← get).cellTotals f
  pop
  split f keys ((scores keys ref totals).map fun _ terms => Scored.best k bottom terms)

/-- The cells of a field's terms in the groups of a key map, each once and in order. -/
def cells (s : Session) (f : Field) (keys : KeyMap) : Table Cell Unit :=
  s.entries.foldl (fun met e =>
    match e.doc.term? f with
    | some t => if keys.contains e.group then met.insert ⟨t, e.group⟩ () else met
    | none => met) .empty

/-- Splits every group of a key map by all of its terms, in term order. -/
def splitExplode (f : Field) (keys : KeyMap) : Action Session KeyMap := do
  let s ← get
  split f keys ((s.cells f keys).keys.foldl (fun c cell => c.add cell.group cell.term) .empty)

end Session
end Rollup
