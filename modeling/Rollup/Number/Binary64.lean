namespace Rollup.Number.Binary64

/-- The three bit fields of a binary64 number. -/
structure Parts where
  negative : Bool
  exponent : Nat
  fraction : Nat
  deriving DecidableEq

def parts (x : Float) : Parts :=
  let bits := x.toBits.toNat
  ⟨bits >>> 63 == 1, (bits >>> 52) % 2048, bits % (1 <<< 52)⟩

/-- A finite number is its significand times two to its scale. -/
def Parts.significand (p : Parts) : Nat :=
  if p.exponent = 0 then p.fraction else p.fraction + 1 <<< 52

def Parts.scale (p : Parts) : Int := (max p.exponent 1 : Nat) - 1075

/-- The magnitude with its fractional part dropped. -/
def Parts.whole (p : Parts) : Nat :=
  match p.scale with
  | .ofNat k => p.significand <<< k
  | .negSucc k => p.significand >>> (k + 1)

/-- The magnitude rounded to a whole number, a half going up. -/
def Parts.nearest (p : Parts) : Nat :=
  match p.scale with
  | .ofNat k => p.significand <<< k
  | .negSucc k => (p.significand + 1 <<< k) >>> (k + 1)

def Parts.signed (p : Parts) (magnitude : Nat) : Int :=
  if p.negative then -(magnitude : Int) else magnitude

/-- The 64-bit integer nearest to an integer. -/
def clamp (n : Int) : Int64 :=
  if n < Int64.minValue.toInt then Int64.minValue
  else if Int64.maxValue.toInt < n then Int64.maxValue
  else Int64.ofInt n

theorem toInt_clamp (n : Int) :
    (clamp n).toInt = max Int64.minValue.toInt (min n Int64.maxValue.toInt) := by
  have lo : Int64.minValue.toInt = -2 ^ 63 := rfl
  have hi : Int64.maxValue.toInt = 2 ^ 63 - 1 := rfl
  unfold clamp
  split
  · omega
  · split
    · omega
    · rw [Int64.toInt_ofInt_of_le (by omega) (by omega)]
      omega

/-- Drops the fractional part; a number outside the range is clamped and NaN gives zero. -/
def truncate (x : Float) : Int64 :=
  if x.isNaN then 0 else clamp ((parts x).signed (parts x).whole)

/-- Rounds to the nearest integer, a half going away from zero; clamped, and NaN gives zero. -/
def round (x : Float) : Int64 :=
  if x.isNaN then 0 else clamp ((parts x).signed (parts x).nearest)

/-- The number nearest to an integer, a tie going to the even significand. -/
def ofInt64 (n : Int64) : Float :=
  let magnitude := (UInt64.ofNat n.toInt.natAbs).toFloat
  if n < 0 then -magnitude else magnitude

end Rollup.Number.Binary64
