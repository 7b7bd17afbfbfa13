import Rollup.Number.Binary64

namespace Rollup.Number.Shortest
open Binary64 (Parts parts)

/-- How many quarters of the last place the interval of a number reaches below it. -/
def below (p : Parts) : Nat := if p.fraction = 0 ∧ 1 < p.exponent then 1 else 2

/-- The point of the grid `10 ^ k` inside the interval that is nearest to the number, given as a multiple
of the grid step; the farther point from zero wins a tie. The interval holds its ends when the
significand is even. -/
def onGrid? (p : Parts) (k : Int) : Option Nat :=
  let q := p.scale - 2
  let unit := Nat.pow 10 (-k).toNat <<< q.toNat
  let step := Nat.pow 10 k.toNat <<< (-q).toNat
  let value := 4 * p.significand * unit
  let low := (4 * p.significand - below p) * unit
  let high := (4 * p.significand + 2) * unit
  let inside := fun (c : Nat) =>
    if p.significand % 2 = 0 then decide (low ≤ c * step ∧ c * step ≤ high)
    else decide (low < c * step ∧ c * step < high)
  let c := value / step
  match inside c, inside (c + 1) with
  | true, true => if value - c * step < (c + 1) * step - value then some c else some (c + 1)
  | true, false => some c
  | false, true => some (c + 1)
  | false, false => none

/-- The first of `fuel` grids, from `10 ^ k` to finer ones, that has a point inside the interval. A coarser grid
spells its points with fewer digits. -/
def coarsest (p : Parts) : Nat → Int → Nat × Int
  | 0, k => (p.significand, k)
  | fuel + 1, k =>
    match onGrid? p k with
    | some c => (c, k)
    | none => coarsest p fuel (k - 1)

/-- The digits of a positive finite number and the power of ten of the last one. No grid is coarser than
the number's own digit count, and `10 ^ (-343)` is finer than every interval. -/
def digits (p : Parts) : List Char × Int :=
  let top := (Nat.toDigits 10 p.whole).length
  let (c, k) := coarsest p (top + 344) top
  (Nat.toDigits 10 c, k)

/-- Writes `digits` times `10 ^ k` without an exponent. -/
def positional (digits : List Char) : Int → List Char
  | .ofNat k => digits ++ List.replicate k '0'
  | .negSucc n =>
    let places := n + 1
    let padded := List.replicate (places + 1 - digits.length) '0' ++ digits
    padded.take (padded.length - places) ++ '.' :: padded.drop (padded.length - places)

def text (x : Float) : String :=
  let p := parts x
  if x.isNaN then "NaN"
  else
    let magnitude :=
      if p.exponent = 2047 then "inf".toList
      else if p.significand = 0 then ['0']
      else positional (digits p).1 (digits p).2
    String.ofList (if p.negative then '-' :: magnitude else magnitude)

end Rollup.Number.Shortest
