import Rollup.Number.Order
import Rollup.Ranking
import Rollup.Stream.Basic

namespace Rollup

/-- A term that competes for a place in its group. A lower rank is better, and of equal ranks the lower
number, which counts the offers over all groups. -/
structure Candidate where
  rank : Float
  number : Nat
  term : Term
  values : List Float
  deriving DecidableEq

namespace Candidate

/-- Whether a candidate comes no later than another, by rank and then by number. -/
def le (a b : Candidate) : Bool :=
  Number.Order.rankLe a.rank b.rank && (!Number.Order.rankLe b.rank a.rank || a.number ≤ b.number)

def beats (a b : Candidate) : Bool := !b.le a

end Candidate

/-- The kept candidates of a group, best first, and how many were offered. -/
structure Shortlist where
  kept : List Candidate
  seen : Nat
  deriving DecidableEq

namespace Shortlist

def empty : Shortlist := ⟨[], 0⟩

/-- Of `k` candidates that are kept the worst one goes when another beats it. -/
def offer (k : Nat) (c : Candidate) (s : Shortlist) : Shortlist where
  kept :=
    if s.kept.length < k then insertLast Candidate.le c s.kept
    else
      match s.kept.getLast? with
      | some worst => if c.beats worst then insertLast Candidate.le c s.kept.dropLast else s.kept
      | none => s.kept
  seen := s.seen + 1

end Shortlist

/-- The shortlists of the groups, and the number of the next candidate. -/
structure Board where
  groups : Table GroupId Shortlist
  next : Nat

def Board.empty : Board := ⟨.empty, 0⟩

/-- What is selected: how many terms, in which direction, by which statistic, with which values, and for
which groups. -/
structure Selection where
  k : Nat
  bottom : Bool
  sortRef : StatRef
  statRefs : List StatRef
  keys : KeyMap

namespace Selection

/-- The greatest score has the lowest rank, or the least when the bottom is selected. -/
def candidate (s : Selection) (number : Nat) (r : Record) : Candidate where
  rank := if s.bottom then s.sortRef.read r.stats else -(s.sortRef.read r.stats)
  number := number
  term := r.term
  values := s.statRefs.map (·.read r.stats)

/-- Records of groups without a key are not offered and get no number. -/
def offer (s : Selection) (r : Record) (board : Board) : Board :=
  if s.k = 0 || !s.keys.contains r.group then board
  else
    { groups := board.groups.update r.group fun old =>
        (old.getD .empty).offer s.k (s.candidate board.next r)
      next := board.next + 1 }

def sink (s : Selection) : Sink Board := .collecting s.offer

/-- How many terms of a group were offered, kept or not. -/
def seen (board : Board) (group : GroupId) : Nat :=
  ((board.groups.get? group).map (·.seen)).getD 0

/-- The rows by group id, and within a group the best term first. -/
def rows (s : Selection) (board : Board) : List ResultRow :=
  board.groups.toList.flatMap fun e =>
    match s.keys.get? e.1 with
    | none => []
    | some parent => e.2.kept.map fun c => ⟨parent.child c.term, c.values⟩

end Selection
end Rollup
