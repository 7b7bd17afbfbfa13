import Rollup.Fault
import Rollup.Key

namespace Rollup

/-- The `n` cells from position `i` on: a placed value where there is one, else the next of the rest, else
the filler of the position. -/
def spliceFrom {α : Type} (placed : Table Nat α) (filler : Nat → α) : Nat → Nat → List α → List α
  | 0, _, _ => []
  | n + 1, i, rest =>
    match placed.get? i, rest with
    | some v, rest => v :: spliceFrom placed filler n (i + 1) rest
    | none, v :: rest => v :: spliceFrom placed filler n (i + 1) rest
    | none, [] => filler i :: spliceFrom placed filler n (i + 1) []

def splice {α : Type} (width : Nat) (placed : Table Nat α) (rest : List α) (filler : Nat → α) : List α :=
  spliceFrom placed filler width 0 rest

theorem length_spliceFrom {α : Type} (placed : Table Nat α) (filler : Nat → α) (n i : Nat)
    (rest : List α) : (spliceFrom placed filler n i rest).length = n := by
  induction n generalizing i rest with
  | zero => rfl
  | succ n ih =>
    simp only [spliceFrom]
    split <;> simp [ih]

/-- A row of values: percentiles at their positions, statistics in the others, zero where neither is. -/
def percentileRow (width : Nat) (percentiles : Table Nat Int64) (stats : List Float) : List Float :=
  splice width (percentiles.map fun _ v => Number.Binary64.ofInt64 v) stats fun _ => 0

/-- The names of the columns, in order. -/
structure Layout where
  names : List String
  deriving DecidableEq

namespace Layout

def width (l : Layout) : Nat := l.names.length

/-- Places each percentile column at its position among the statistics. Positions are distinct and lie
inside the row. Of several positions outside it the fault names the least, which stands for any of them. -/
def ofColumns (stats : List String) (percentiles : List (Nat × String)) : Except Fault Layout :=
  let width := stats.length + percentiles.length
  let placed := Table.ofList percentiles
  if placed.toList.length ≠ percentiles.length then .error (.invalidSetting .positionsShared)
  else
    match placed.keys.find? fun p => width ≤ p with
    | some p => .error (.invalidSetting (.positionBeyondRow p width))
    | none => .ok ⟨splice width placed stats fun i => s!"column{i}"⟩

end Layout

/-- Joins the rows of consecutive stages; a fault among them discards all. -/
def assemble (stages : List (List (Except Fault ResultRow))) : Except Fault (List ResultRow) :=
  stages.flatten.mapM id

end Rollup
