import Rollup.Proofs.Number.Arithmetic

namespace Rollup.Number.Binary64
open Float.Model Float.Model.UnpackedFloat

/-- How many units make one. -/
def unit : Nat := 2 ^ 1074

/-- A count as a number. -/
def ofCount (n : Nat) : Float := ofInt64 (Int64.ofNat n)

theorem parts_neg_exponent {x : Float} (number : x.isNaN = false) :
    (parts (-x)).exponent = (parts x).exponent ∧ (parts (-x)).fraction = (parts x).fraction := by
  have magnitude := (parts_neg number).2
  have fraction := fraction_lt x
  have negated := fraction_lt (-x)
  simp only [Parts.magnitude] at magnitude
  omega

theorem inUnits_neg {x : Float} (finite : x.isFinite = true) :
    (-x).isFinite = true ∧ inUnits (-x) = -inUnits x := by
  have number := isNaN_of_isFinite finite
  obtain ⟨exponent, fraction⟩ := parts_neg_exponent number
  have sign := (parts_neg number).1
  rw [isFinite_eq, decide_eq_true_iff] at finite
  constructor
  · rw [isFinite_eq, exponent]
    exact decide_eq_true finite
  · have significand : (parts (-x)).significand = (parts x).significand := by
      rw [Parts.significand, Parts.significand, exponent, fraction]
    have scale : (parts (-x)).scale = (parts x).scale := by
      rw [Parts.scale, Parts.scale, exponent]
    rw [inUnits, inUnits, significand, scale, sign, apply_neg]

/-- The exponent by a name: as a literal it would be raised to a power again and again. -/
theorem exists_unit_eq : ∃ c, c = 1074 ∧ unit = 2 ^ c := ⟨1074, rfl, rfl⟩

theorem unit_pos : 0 < unit := by
  obtain ⟨c, -, one⟩ := exists_unit_eq
  rw [one]
  exact Nat.two_pow_pos c

theorem two_pow_mul_unit (a : Nat) : 2 ^ a * unit = 2 ^ (a + 1074) := by
  obtain ⟨c, literal, one⟩ := exists_unit_eq
  rw [one, ← literal, Nat.pow_add]

theorem toFloat_eq (n : UInt64) :
    ∃ u, n.toFloat = ofUnpacked u ∧ RoundedTo ((n.toNat * unit : Nat) : Int) u := by
  refine ⟨_, rfl, ?_⟩
  have rounded := @normalize_eq (n.toNat : Int) 0 (by decide)
  have cast : ((n.toNat * unit : Nat) : Int) = (n.toNat : Int) * 2 ^ (0 + 1074 : Int).toNat := by
    rw [unit, Int.natCast_mul, Int.natCast_pow]
    rfl
  rw [cast]
  exact rounded

theorem toNat_natAbs (n : Int64) : (UInt64.ofNat n.toInt.natAbs).toNat = n.toInt.natAbs := by
  have low := n.le_toInt
  have high := n.toInt_lt
  rw [UInt64.toNat_ofNat']
  exact Nat.mod_eq_of_lt (by omega)

theorem mul_unit_le {n : Nat} (short : n ≤ 2 ^ 63) : n * unit ≤ 2 ^ (53 + 1084) := by
  have scaled : n * unit ≤ 2 ^ 63 * unit := Nat.mul_le_mul_right _ short
  have exponent : 63 + 1074 = 53 + 1084 := rfl
  rw [two_pow_mul_unit, exponent] at scaled
  exact scaled

theorem mul_unit_lt {n : Nat} (short : n ≤ 2 ^ 63) : n * unit < 2 ^ (53 + 2044) := by
  apply Nat.lt_of_le_of_lt (mul_unit_le short)
  exact two_pow_lt_two_pow (by omega)

theorem toFloat_bounded {n : UInt64} (short : n.toNat ≤ 2 ^ 63) :
    n.toFloat.isFinite = true ∧ (inUnits n.toFloat).natAbs ≤ 2 ^ (53 + 1084) := by
  obtain ⟨u, value, rounded⟩ := toFloat_eq n
  obtain ⟨finite, cases⟩ := rounded.inUnits_eq (mul_unit_lt short)
  rw [value]
  refine ⟨finite, ?_⟩
  rcases cases with ⟨-, zero⟩ | ⟨s, m, e, near, -, -, units⟩
  · rw [zero]
    exact Nat.zero_le _
  · rw [units, natAbs_apply]
    apply near.units_le
    exact Nat.lt_of_le_of_lt (mul_unit_le short) (Nat.lt_add_of_pos_right (two_pow_positive _))

theorem inUnits_toFloat_nonneg {n : UInt64} (short : n.toNat ≤ 2 ^ 63) : 0 ≤ inUnits n.toFloat := by
  obtain ⟨u, value, rounded⟩ := toFloat_eq n
  rw [value]
  rcases rounded.inUnits_natCast (mul_unit_lt short) with ⟨-, units⟩ | ⟨m, e, -, units⟩
  · exact Int.le_of_eq units.symm
  · rw [units]
    exact Int.natCast_nonneg _

theorem eq_zero_of_inUnits_toFloat {n : UInt64} (short : n.toNat ≤ 2 ^ 63) (zero : inUnits n.toFloat = 0) :
    n.toNat = 0 := by
  obtain ⟨u, value, rounded⟩ := toFloat_eq n
  rw [value] at zero
  rcases rounded.inUnits_natCast (mul_unit_lt short) with ⟨nothing, -⟩ | ⟨m, e, near, units⟩
  · exact (Nat.mul_eq_zero.1 nothing).resolve_right (Nat.ne_of_gt unit_pos)
  · have something : 0 < Binary64.units m e := Nat.mul_pos near.positive (Nat.two_pow_pos _)
    omega

theorem inUnits_toFloat_mono {m n : UInt64} (h : m.toNat ≤ n.toNat) (short : n.toNat ≤ 2 ^ 63) :
    inUnits m.toFloat ≤ inUnits n.toFloat := by
  by_cases same : m.toNat = n.toNat
  · apply Int.le_of_eq
    rw [UInt64.toNat_inj.1 same]
  · obtain ⟨u, value, rounded⟩ := toFloat_eq m
    obtain ⟨w, value', rounded'⟩ := toFloat_eq n
    have less : m.toNat * unit < n.toNat * unit := Nat.mul_lt_mul_of_pos_right (by omega) unit_pos
    rw [value, value']
    exact rounded.inUnits_mono rounded' less (mul_unit_lt short)

theorem magnitude_le (n : Int64) : (UInt64.ofNat n.toInt.natAbs).toNat ≤ 2 ^ 63 := by
  have low := n.le_toInt
  have high := n.toInt_lt
  rw [toNat_natAbs]
  omega

/-- The value of an integer as a number is that of its magnitude, with its sign. -/
theorem inUnits_ofInt64 (n : Int64) :
    inUnits (ofInt64 n) = if n < 0 then -inUnits (UInt64.ofNat n.toInt.natAbs).toFloat
      else inUnits (UInt64.ofNat n.toInt.natAbs).toFloat := by
  unfold ofInt64
  by_cases negative : n < 0
  · simp only [if_pos negative]
    exact (inUnits_neg (toFloat_bounded (magnitude_le n)).1).2
  · simp only [if_neg negative]

/-- Every integer is a finite number within two to the 63. -/
theorem ofInt64_bounded (n : Int64) :
    (ofInt64 n).isFinite = true ∧ (inUnits (ofInt64 n)).natAbs ≤ 2 ^ (53 + 1084) := by
  obtain ⟨finite, bound⟩ := toFloat_bounded (magnitude_le n)
  constructor
  · unfold ofInt64
    by_cases negative : n < 0
    · simp only [if_pos negative]
      exact (inUnits_neg finite).1
    · simp only [if_neg negative]
      exact finite
  · rw [inUnits_ofInt64]
    by_cases negative : n < 0
    · rw [if_pos negative, Int.natAbs_neg]
      exact bound
    · rw [if_neg negative]
      exact bound

/-- Integers keep their order as numbers. -/
theorem inUnits_ofInt64_mono {m n : Int64} (h : m ≤ n) : inUnits (ofInt64 m) ≤ inUnits (ofInt64 n) := by
  have mNonneg := inUnits_toFloat_nonneg (magnitude_le m)
  have nNonneg := inUnits_toFloat_nonneg (magnitude_le n)
  have order := Int64.le_iff_toInt_le.1 h
  have zero : (0 : Int64).toInt = 0 := rfl
  rw [inUnits_ofInt64, inUnits_ofInt64]
  simp only [Int64.lt_iff_toInt_lt, zero]
  by_cases nNegative : n.toInt < 0
  · have mNegative : m.toInt < 0 := by omega
    have magnitudes := inUnits_toFloat_mono
      (m := UInt64.ofNat n.toInt.natAbs) (n := UInt64.ofNat m.toInt.natAbs)
      (by rw [toNat_natAbs, toNat_natAbs]; omega) (magnitude_le m)
    rw [if_pos mNegative, if_pos nNegative]
    exact Int.neg_le_neg magnitudes
  · rw [if_neg nNegative]
    by_cases mNegative : m.toInt < 0
    · rw [if_pos mNegative]
      omega
    · have magnitudes := inUnits_toFloat_mono
        (m := UInt64.ofNat m.toInt.natAbs) (n := UInt64.ofNat n.toInt.natAbs)
        (by rw [toNat_natAbs, toNat_natAbs]; omega) (magnitude_le n)
      rw [if_neg mNegative]
      exact magnitudes

theorem isNaN_ofInt64 (n : Int64) : (ofInt64 n).isNaN = false := isNaN_of_isFinite (ofInt64_bounded n).1

theorem ofInt64_le_iff (m n : Int64) : ofInt64 m ≤ ofInt64 n ↔ level (ofInt64 m) ≤ level (ofInt64 n) :=
  le_iff (isNaN_ofInt64 m) (isNaN_ofInt64 n)

theorem ofInt64_lt_iff (m n : Int64) : ofInt64 m < ofInt64 n ↔ level (ofInt64 m) < level (ofInt64 n) :=
  lt_iff (isNaN_ofInt64 m) (isNaN_ofInt64 n)

theorem level_ofInt64_mono {m n : Int64} (h : m ≤ n) : level (ofInt64 m) ≤ level (ofInt64 n) :=
  (level_le_iff (ofInt64_bounded m).1 (ofInt64_bounded n).1).2 (inUnits_ofInt64_mono h)

section Integers
variable {x : Float} {m n : Int64}

/-- A number is above an integer unless it is no greater. -/
theorem not_le_ofInt64_iff (number : x.isNaN = false) (n : Int64) : ¬x ≤ ofInt64 n ↔ ofInt64 n < x := by
  rw [le_iff number (isNaN_ofInt64 n), lt_iff (isNaN_ofInt64 n) number, Int.not_le]

theorem not_lt_of_le_ofInt64 (low : x ≤ ofInt64 n) : ¬ofInt64 n < x := by
  rw [← not_le_ofInt64_iff (isNaN_of_le low).1]
  exact not_not_intro low

theorem le_ofInt64_of_le (order : m ≤ n) (low : x ≤ ofInt64 m) : x ≤ ofInt64 n := by
  have number := (isNaN_of_le low).1
  rw [le_iff number (isNaN_ofInt64 m)] at low
  rw [le_iff number (isNaN_ofInt64 n)]
  exact Int.le_trans low (level_ofInt64_mono order)

theorem ofInt64_lt_of_le (order : m ≤ n) (below : ofInt64 n < x) : ofInt64 m < x := by
  have number := (isNaN_of_lt below).2
  rw [← not_le_ofInt64_iff number] at below ⊢
  exact mt (le_ofInt64_of_le order) below

end Integers

theorem eq_zero_of_level_ofInt64 {n : Int64} (zero : level (ofInt64 n) = 0) : n = 0 := by
  have none : (0 : Float).isFinite = true ∧ level 0 = 0 ∧ inUnits 0 = 0 := by decide +kernel
  obtain ⟨finite, least, nothing⟩ := none
  have below := (level_le_iff (ofInt64_bounded n).1 finite).1 (Int.le_of_eq (zero.trans least.symm))
  have above := (level_le_iff finite (ofInt64_bounded n).1).1 (Int.le_of_eq (least.trans zero.symm))
  have value : inUnits (ofInt64 n) = 0 := by omega
  have magnitude : inUnits (UInt64.ofNat n.toInt.natAbs).toFloat = 0 := by
    rw [inUnits_ofInt64] at value
    by_cases negative : n < 0
    · rw [if_pos negative] at value
      exact Int.neg_eq_zero.1 value
    · rw [if_neg negative] at value
      exact value
  have absolute := eq_zero_of_inUnits_toFloat (magnitude_le n) magnitude
  rw [toNat_natAbs] at absolute
  exact Int64.toInt_inj.1 (Int.natAbs_eq_zero.1 absolute)

/-- Integers of equal value as numbers are the same number: none is a negative zero. -/
theorem ofInt64_eq_iff (m n : Int64) : ofInt64 m = ofInt64 n ↔ level (ofInt64 m) = level (ofInt64 n) := by
  constructor
  · intro same
    rw [same]
  · intro same
    by_cases zero : level (ofInt64 m) = 0
    · rw [eq_zero_of_level_ofInt64 zero, eq_zero_of_level_ofInt64 (same.symm.trans zero)]
    · apply eq_of_level same
      rw [level, level, Parts.signed, Parts.signed] at same
      rw [level, Parts.signed] at zero
      cases mNegative : (parts (ofInt64 m)).negative with
      | true =>
        cases nNegative : (parts (ofInt64 n)).negative with
        | true => rfl
        | false =>
          rw [mNegative, nNegative, if_pos rfl, if_neg Bool.false_ne_true] at same
          rw [mNegative, if_pos rfl] at zero
          omega
      | false =>
        cases nNegative : (parts (ofInt64 n)).negative with
        | true =>
          rw [mNegative, nNegative, if_pos rfl, if_neg Bool.false_ne_true] at same
          rw [mNegative, if_neg Bool.false_ne_true] at zero
          omega
        | false => rfl

/-- Nonzero units that need no rounding stand for one number only. -/
theorem RoundedTo.eq_of_dvd {v : Int} {u w : UnpackedFloat} (first : RoundedTo v u)
    (second : RoundedTo v w) (nonzero : v ≠ 0) (bound : v.natAbs < 2 ^ (53 + 2044))
    (whole : 2 ^ excess v.natAbs ∣ v.natAbs) : u = w := by
  rcases first with ⟨-, -, zero⟩ | ⟨s, m, e, near, rfl, sign⟩
  · exact absurd zero nonzero
  · rcases second with ⟨-, -, zero⟩ | ⟨t, n, f, near', rfl, sign'⟩
    · exact absurd zero nonzero
    · have units : units m e = units n f := by
        rw [near.units_eq_of_dvd whole, near'.units_eq_of_dvd whole]
      obtain ⟨rfl, rfl⟩ := (near.inRange bound).eq_of_units (near'.inRange bound) near.positive units
      have same : s = t := by
        cases s <;> cases t <;> simp only [Sign.apply] at sign sign' <;> first | rfl | omega
      rw [same]

/-- Whole numbers of 53 bits need no rounding. -/
theorem two_pow_excess_dvd {n : Nat} (short : n ≤ 2 ^ 53) : 2 ^ excess (n * unit) ∣ n * unit := by
  by_cases top : n = 2 ^ 53
  · rw [top, two_pow_mul_unit, excess, Nat.log2_two_pow]
    exact two_pow_dvd_two_pow (Nat.sub_le _ _)
  · have below : n * unit < 2 ^ (53 + 1074) := by
      rw [← two_pow_mul_unit]
      apply Nat.mul_lt_mul_of_pos_right
      · omega
      · exact unit_pos
    obtain ⟨c, literal, one⟩ := exists_unit_eq
    have low : excess (n * unit) ≤ 1074 := excess_lt_of_lt below
    rw [← literal] at low
    have whole : 2 ^ excess (n * unit) ∣ 2 ^ c := two_pow_dvd_two_pow low
    rw [← one] at whole
    exact Nat.dvd_trans whole (Nat.dvd_mul_left _ _)

section Counts
variable {n : Nat}

theorem toInt_ofNat (short : n ≤ 2 ^ 53) : (Int64.ofNat n).toInt = n := by
  apply Int64.toInt_ofNat_of_lt
  omega

/-- A count becomes a number without a look at its sign. -/
theorem ofCount_eq (short : n ≤ 2 ^ 53) :
    ∃ u, ofCount n = ofUnpacked u ∧ RoundedTo ((n * unit : Nat) : Int) u := by
  have value := toInt_ofNat short
  have notNegative : ¬Int64.ofNat n < 0 := by
    rw [Int64.lt_iff_toInt_lt, value]
    have zero : (0 : Int64).toInt = 0 := rfl
    omega
  obtain ⟨u, float, rounded⟩ := toFloat_eq (UInt64.ofNat (Int64.ofNat n).toInt.natAbs)
  rw [toNat_natAbs, value, Int.natAbs_natCast] at rounded
  refine ⟨u, ?_, rounded⟩
  rw [ofCount, ofInt64, if_neg notNegative]
  exact float

/-- Counts are exact. -/
theorem inUnits_ofCount (short : n ≤ 2 ^ 53) :
    (ofCount n).isFinite = true ∧ inUnits (ofCount n) = (n * unit : Nat) := by
  obtain ⟨u, value, rounded⟩ := ofCount_eq short
  obtain ⟨finite, cases⟩ := rounded.inUnits_eq (mul_unit_lt (by omega))
  rw [value]
  refine ⟨finite, ?_⟩
  rcases cases with ⟨zero, units⟩ | ⟨s, m, e, near, -, sign, units⟩
  · rw [units, zero]
  · rw [units, near.units_eq_of_dvd (two_pow_excess_dvd short)]
    exact sign.symm

/-- Counting on by one is exact. -/
theorem ofCount_add_one (short : n < 2 ^ 53) : ofCount n + ofCount 1 = ofCount (n + 1) := by
  obtain ⟨finite, units⟩ := inUnits_ofCount (n := n) (by omega)
  obtain ⟨oneFinite, oneUnits⟩ := inUnits_ofCount (n := 1) (by omega)
  obtain ⟨u, sum, rounded⟩ := add_eq finite oneFinite
  obtain ⟨w, next, nextRounded⟩ := ofCount_eq (n := n + 1) short
  have total : inUnits (ofCount n) + inUnits (ofCount 1) = ((n + 1) * unit : Nat) := by
    rw [units, oneUnits, ← Int.natCast_add, ← Nat.add_mul]
  have nonzero : (((n + 1) * unit : Nat) : Int) ≠ 0 := by
    rw [Int.natCast_ne_zero]
    exact Nat.ne_of_gt (Nat.mul_pos (Nat.succ_pos n) unit_pos)
  rw [total] at rounded
  rw [sum, next, rounded.eq_of_dvd nextRounded nonzero (mul_unit_lt (by omega))
    (two_pow_excess_dvd short)]

/-- A finite number that is a whole count is nearest to that count. -/
theorem signed_nearest {x : Float} (finite : x.isFinite = true) (count : inUnits x = (n * unit : Nat)) :
    (parts x).signed (parts x).nearest = n := by
  rw [isFinite_eq, decide_eq_true_iff] at finite
  have least := (inRange_parts finite).least
  have absolute : units (parts x).significand (parts x).scale = n * unit := by
    rw [← Int.natAbs_natCast (n * unit), ← count, inUnits, natAbs_apply]
  have nearest : (parts x).nearest = n := by
    rw [units] at absolute
    unfold Parts.nearest
    cases scale : (parts x).scale with
    | ofNat k =>
      rw [scale] at absolute
      have place : (Int.ofNat k + 1074).toNat = k + 1074 := rfl
      rw [place, ← two_pow_mul_unit, ← Nat.mul_assoc] at absolute
      show (parts x).significand <<< k = n
      rw [Nat.shiftLeft_eq]
      exact Nat.eq_of_mul_eq_mul_right unit_pos absolute
    | negSucc k =>
      rw [scale] at absolute least
      have split : 1074 = k + 1 + (Int.negSucc k + 1074).toNat := by omega
      have whole : (parts x).significand = n * 2 ^ (k + 1) := by
        apply Nat.eq_of_mul_eq_mul_right (Nat.two_pow_pos (Int.negSucc k + 1074).toNat)
        rw [absolute, Nat.mul_assoc, ← Nat.pow_add, ← split]
        rfl
      show ((parts x).significand + 1 <<< k) >>> (k + 1) = n
      have half : 2 ^ k < 2 ^ (k + 1) := Nat.pow_lt_pow_right (by omega) (by omega)
      rw [whole, Nat.shiftLeft_eq, Nat.one_mul, Nat.shiftRight_eq_div_pow, Nat.mul_comm,
        Nat.mul_add_div (Nat.two_pow_pos _), Nat.div_eq_of_lt half, Nat.add_zero]
  rw [nearest, Parts.signed]
  by_cases negative : (parts x).negative = true
  · have below : (parts x).sign = .negative := if_pos negative
    rw [inUnits, below, absolute] at count
    have nothing : n * unit = 0 := by
      simp only [Sign.apply] at count
      omega
    have zero : n = 0 := (Nat.mul_eq_zero.1 nothing).resolve_right (Nat.ne_of_gt unit_pos)
    rw [zero]
    simp
  · rw [if_neg negative]

/-- Rounding gives a count back. -/
theorem round_ofCount (short : n ≤ 2 ^ 53) : round (ofCount n) = Int64.ofNat n := by
  obtain ⟨finite, units⟩ := inUnits_ofCount short
  have low : Int64.minValue.toInt = -2 ^ 63 := rfl
  have high : Int64.maxValue.toInt = 2 ^ 63 - 1 := rfl
  rw [round, isNaN_of_isFinite finite, signed_nearest finite units, ← Int64.toInt_inj,
    toInt_ofNat short]
  show (clamp n).toInt = n
  rw [toInt_clamp]
  omega

end Counts
end Rollup.Number.Binary64
