namespace Rollup.Number.Order

/-- A number's place among all bit patterns, read as a sign and a magnitude. -/
def place (x : Float) : Int :=
  let bits := x.toBits.toNat
  if bits < 1 <<< 63 then bits else (1 <<< 63 : Nat) - 1 - (bits : Int)

/-- The total order: negative zero comes before zero. -/
def totalLe (a b : Float) : Bool := place a ≤ place b

theorem totalLe_total (a b : Float) : (totalLe a b || totalLe b a) = true := by
  simp only [totalLe, Bool.or_eq_true, decide_eq_true_eq]
  omega

theorem totalLe_trans (a b c : Float) (hab : totalLe a b) (hbc : totalLe b c) : totalLe a c := by
  simp only [totalLe, decide_eq_true_eq] at *
  omega

/-- The numeric order with NaN after everything; the two zeros are equal, and so are two NaNs. It is the order
that the package `ordered-float` documents. Nothing more is used of it than its laws: it is total and transitive, it
is that of the values among numbers, the zeros tie, NaN comes last, and negation turns it around. -/
def rankLe (a b : Float) : Bool := b.isNaN || (!a.isNaN && a ≤ b)

end Rollup.Number.Order
