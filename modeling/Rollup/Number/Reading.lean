namespace Rollup.Number.Reading

def digitValue (c : Char) : Nat := c.toNat - '0'.toNat

/-- The number that a list of decimal digits stands for. -/
def ofDigits (cs : List Char) : Nat := cs.foldl (fun n c => 10 * n + digitValue c) 0

def digits? (cs : List Char) : Option Nat :=
  if !cs.isEmpty && cs.all Char.isDigit then some (ofDigits cs) else none

/-- A count is a run of digits, perhaps after a plus sign, below 2 to the 64th. -/
def count? (cs : List Char) : Option Nat :=
  let unsigned := match cs with
    | '+' :: rest => rest
    | _ => cs
  (digits? unsigned).filter (· < 1 <<< 64)

/-- An integer is a run of digits, perhaps after one sign, within 64 bits. -/
def int64? (cs : List Char) : Option Int64 :=
  let value := match cs with
    | '-' :: rest => (digits? rest).map fun n => -(n : Int)
    | '+' :: rest => (digits? rest).map fun n => (n : Int)
    | _ => (digits? cs).map fun n => (n : Int)
  (value.filter fun n => Int64.minValue.toInt ≤ n && n ≤ Int64.maxValue.toInt).map Int64.ofInt

/-- An exponent is a letter e, perhaps a sign, and digits; no exponent stands for zero. -/
def exponent? : List Char → Option Int
  | [] => some 0
  | c :: rest =>
    if c = 'e' ∨ c = 'E' then
      match rest with
      | '-' :: ds => (digits? ds).map fun n => -(n : Int)
      | '+' :: ds => (digits? ds).map fun n => (n : Int)
      | ds => (digits? ds).map fun n => (n : Int)
    else none

/-- The number nearest to `m` times `10 ^ e`; beyond the range it is infinite, below it zero. -/
def scaled (m : Nat) (e : Int) : Float :=
  let size := (Nat.toDigits 10 m).length + e
  if m = 0 ∨ size < -330 then 0
  else if 320 < size then 1 / 0
  else Float.ofScientific m (e < 0) e.natAbs

/-- Digits with at most one point among or beside them, then an exponent. -/
def plainDecimal? (cs : List Char) : Option Float :=
  let whole := cs.takeWhile Char.isDigit
  let afterWhole := cs.dropWhile Char.isDigit
  let pointed := match afterWhole with
    | '.' :: rest => rest
    | _ => []
  let rest := match afterWhole with
    | '.' :: rest => rest.dropWhile Char.isDigit
    | _ => afterWhole
  let places := pointed.takeWhile Char.isDigit
  if whole.isEmpty && places.isEmpty then none
  else (exponent? rest).map fun e => scaled (ofDigits (whole ++ places)) (e - places.length)

def unsignedDecimal? (cs : List Char) : Option Float :=
  let word := cs.map Char.toLower
  if word = "inf".toList ∨ word = "infinity".toList then some (1 / 0)
  else if word = "nan".toList then some (0 / 0)
  else plainDecimal? cs

/-- A decimal, an infinity or NaN, perhaps after one sign. -/
def decimal? : List Char → Option Float
  | '-' :: rest => (unsignedDecimal? rest).map (- ·)
  | '+' :: rest => unsignedDecimal? rest
  | cs => unsignedDecimal? cs

end Rollup.Number.Reading
