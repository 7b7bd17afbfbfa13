import Rollup.Proofs.Number.Counting

namespace Rollup.Number.Binary64
open Float.Model Float.Model.UnpackedFloat

theorem roundedUnits_zero (b : Nat) : roundedUnits 0 b = 0 := by
  have none (c : Nat) : nearestQuotient 0 c = 0 := by simp [nearestQuotient]
  rw [roundedUnits, none, Nat.zero_mul]

/-- Rounding up does not go beyond the next power of two. -/
theorem roundedUnits_le (a b : Nat) : roundedUnits a b ≤ 2 ^ (53 + excess (a / b)) := by
  rw [roundedUnits, Nat.pow_add]
  exact Nat.mul_le_mul_right _ (nearestQuotient_excess_le a b)

theorem excess_mono {v w : Nat} (order : v ≤ w) : excess v ≤ excess w := by
  refine Nat.sub_le_sub_right ?_ 52
  by_cases zero : v = 0
  · rw [zero, Nat.log2_zero]
    exact Nat.zero_le _
  · rw [Nat.le_log2 (by omega)]
    exact Nat.le_trans (Nat.log2_self_le zero) order

/-- Rounding keeps the order. -/
theorem roundedUnits_mono {a a' : Nat} (b : Nat) (order : a ≤ a') : roundedUnits a b ≤ roundedUnits a' b := by
  have lengths : excess (a / b) ≤ excess (a' / b) := excess_mono (Nat.div_le_div_right order)
  by_cases same : excess (a / b) = excess (a' / b)
  · rw [roundedUnits, roundedUnits, same]
    exact Nat.mul_le_mul_right _ (nearestQuotient_mono order)
  · have full : 2 ^ 52 ≤ a' / b / 2 ^ excess (a' / b) := full_of_excess (by omega)
    rw [Nat.div_div_eq_div_mul] at full
    calc roundedUnits a b ≤ 2 ^ (53 + excess (a / b)) := roundedUnits_le a b
      _ ≤ 2 ^ (52 + excess (a' / b)) := Nat.pow_le_pow_right Nat.two_pos (by omega)
      _ = 2 ^ 52 * 2 ^ excess (a' / b) := Nat.pow_add 2 52 _
      _ ≤ roundedUnits a' b :=
          Nat.mul_le_mul_right _ (Nat.le_trans full (div_le_nearestQuotient _ _))

theorem mantissa_shiftToTargetExponent_zero (e : Int) :
    (shiftToTargetExponent Format.binary64 0 e .exact).1.mantissa = 0 := by
  have nothing (n : Nat) : (ExtendedMantissa.ofMantissaAndAccuracy 0 .exact >>> n).mantissa = 0 := by
    have here : Represents (.ofMantissaAndAccuracy 0 .exact) 0 1 := .ofFraction 0 Nat.one_pos
    rw [(here.shiftRight Nat.one_pos n).mantissa, Nat.zero_div]
  exact nothing _

/-- A significand and what was cut off from it come to the rounded units of the quotient that they stand for. -/
theorem inUnits_roundWithAccuracy (s : Sign) {a b i j : Nat} {e : Int} (positive : 0 < b)
    (scale : e + 1074 + j = i) (low : e + 1074 ≤ excess (a * 2 ^ i / (b * 2 ^ j)))
    (bound : a * 2 ^ i / (b * 2 ^ j) < 2 ^ (53 + 2044)) :
    let x := ofUnpacked (roundWithAccuracy Format.binary64 s (a / b) e
      (accuracyOfFraction (a % b) b))
    x.isFinite = true ∧ inUnits x = s.apply (roundedUnits (a * 2 ^ i) (b * 2 ^ j)) := by
  have few : excess (a * 2 ^ i / (b * 2 ^ j)) ≤ 2044 := excess_lt_of_lt bound
  by_cases zero : nearestQuotient (a * 2 ^ i) (b * 2 ^ j * 2 ^ excess (a * 2 ^ i / (b * 2 ^ j))) = 0
  · obtain ⟨shifted, first, rounded⟩ := exists_shiftToTargetExponent_eq positive scale low
    have result : roundWithAccuracy Format.binary64 s (a / b) e (accuracyOfFraction (a % b) b) =
        .zero s := by
      unfold roundWithAccuracy
      rw [first]
      dsimp only
      rw [rounded, zero]
      exact dif_pos (mantissa_shiftToTargetExponent_zero _)
    rw [result, roundedUnits, zero, Nat.zero_mul]
    refine ⟨(ofUnpacked_zero s).1, (ofUnpacked_zero s).2.trans ?_⟩
    cases s with
    | negative => rfl
    | positive => rfl
  · obtain ⟨m, f, mPositive, result, short, full, least, bounded, value⟩ :=
      exists_roundWithAccuracy_eq s positive scale low (Nat.pos_of_ne_zero zero)
    have range : InRange m f := ⟨short, full, least, by omega⟩
    rw [result, ← value]
    exact range.ofUnpacked_finite s mPositive

/-- A finite number of so many units is a zero, or a positive significand and a scale. -/
theorem unpack_of_inUnits {x : Float} (finite : x.isFinite = true) {a : Nat} (value : inUnits x = a) :
    (∃ s, x.toModel.unpack = .zero s ∧ a = 0) ∨
      ∃ m e, ∃ positive : 0 < m, x.toModel.unpack = .finite .positive m e positive ∧ InRange m e ∧
        a = units m e := by
  rcases unpack_of_isFinite finite with ⟨s, xIs, zero⟩ | ⟨s, m, e, positive, xIs, range, xUnits⟩
  · exact .inl ⟨s, xIs, by omega⟩
  · have some : 0 < units m e := Nat.mul_pos positive (Nat.two_pow_pos _)
    rw [value] at xUnits
    cases s with
    | negative =>
      simp only [Sign.apply] at xUnits
      omega
    | positive =>
      simp only [Sign.apply] at xUnits
      exact .inr ⟨m, e, positive, xIs, range, by omega⟩

theorem InRange.two_pow_le {m : Nat} {e : Int} (range : InRange m e) (above : -1074 < e) : 2 ^ 52 ≤ m :=
  range.full.resolve_right (by omega)

/-- A quotient is no less than the power of two that the lengths of its parts leave. -/
theorem two_pow_le_quotient {m n : Nat} {e f : Int} {c l : Nat} (mPositive : 0 < m) (positive : 0 < units n f)
    (lengths : l + (n.log2 + 1 + (f + 1074).toNat) ≤ m.log2 + (e + 1074).toNat + c) :
    2 ^ l ≤ units m e * 2 ^ c / units n f := by
  rw [Nat.le_div_iff_mul_le positive]
  calc 2 ^ l * units n f
      ≤ 2 ^ l * (2 ^ (n.log2 + 1) * 2 ^ (f + 1074).toNat) :=
        Nat.mul_le_mul_left _ (Nat.mul_le_mul_right _ (Nat.le_of_lt Nat.lt_log2_self))
    _ = 2 ^ (l + (n.log2 + 1 + (f + 1074).toNat)) := by rw [← Nat.pow_add, ← Nat.pow_add]
    _ ≤ 2 ^ (m.log2 + (e + 1074).toNat + c) := Nat.pow_le_pow_right Nat.two_pos lengths
    _ = 2 ^ m.log2 * 2 ^ (e + 1074).toNat * 2 ^ c := by rw [Nat.pow_add, Nat.pow_add]
    _ ≤ units m e * 2 ^ c :=
        Nat.mul_le_mul_right _ (Nat.mul_le_mul_right _ (Nat.log2_self_le (Nat.ne_of_gt mPositive)))

section Operations
variable {x y : Float} {a b : Nat} (xFinite : x.isFinite = true) (yFinite : y.isFinite = true)
  (xUnits : inUnits x = a) (yUnits : inUnits y = b)
include xFinite yFinite xUnits yUnits

theorem mul_eq (bound : a * b / unit < 2 ^ (53 + 2044)) :
    (x * y).isFinite = true ∧ inUnits (x * y) = (roundedUnits (a * b) unit : Nat) := by
  have model : x * y =
      ofUnpacked (UnpackedFloat.mul Format.binary64 x.toModel.unpack y.toModel.unpack) := rfl
  have nothing : roundedUnits 0 unit = 0 := roundedUnits_zero unit
  rw [model]
  rcases unpack_of_inUnits xFinite xUnits with ⟨s, xIs, rfl⟩ | ⟨m, e, mPositive, xIs, xRange, rfl⟩
  · rw [xIs, Nat.zero_mul, nothing]
    rcases unpack_of_isFinite yFinite with ⟨t, yIs, -⟩ | ⟨t, n, f, positive, yIs, -⟩
    · rw [yIs]
      exact ofUnpacked_zero _
    · rw [yIs]
      exact ofUnpacked_zero _
  · rcases unpack_of_inUnits yFinite yUnits with ⟨t, yIs, rfl⟩ | ⟨n, f, nPositive, yIs, yRange, rfl⟩
    · rw [xIs, yIs, Nat.mul_zero, nothing]
      exact ofUnpacked_zero _
    · have xLeast := xRange.least
      have yLeast := yRange.least
      obtain ⟨i, place⟩ : ∃ i, i = (e + 1074).toNat + (f + 1074).toNat := ⟨_, rfl⟩
      have product : units m e * units n f = m * n * 2 ^ i := by
        rw [units, units, place, Nat.pow_add, Nat.mul_mul_mul_comm]
      obtain ⟨j, thousand, one⟩ : ∃ j, j = 1074 ∧ unit = 2 ^ j := ⟨1074, rfl, rfl⟩
      rw [xIs, yIs]
      rw [product, one, ← Nat.one_mul (2 ^ j)] at bound ⊢
      have low : e + f + 1074 ≤ excess (m * n * 2 ^ i / (1 * 2 ^ j)) := by
        by_cases small : e + f + 1074 ≤ 0
        · omega
        · have long : 2 ^ 52 ≤ m * n := by
            by_cases above : -1074 < e
            · exact Nat.le_trans (xRange.two_pow_le above) (Nat.le_mul_of_pos_right m nPositive)
            · exact Nat.le_trans (yRange.two_pow_le (by omega)) (Nat.le_mul_of_pos_left n mPositive)
          have bits : 52 ≤ (m * n).log2 := (Nat.le_log2 (by omega)).2 long
          rw [Nat.one_mul, excess, log2_div_two_pow, log2_mul_two_pow (by omega)]
          omega
      have rounded := inUnits_roundWithAccuracy (.positive * .positive) (a := m * n) Nat.one_pos
        (e := e + f) (by omega) low bound
      rw [Nat.div_one, Nat.mod_one] at rounded
      exact rounded

theorem div_eq (positive : 0 < b) (bound : a * unit / b < 2 ^ (53 + 2044)) :
    (x / y).isFinite = true ∧ inUnits (x / y) = (roundedUnits (a * unit) b : Nat) := by
  have model : x / y =
      ofUnpacked (UnpackedFloat.div Format.binary64 x.toModel.unpack y.toModel.unpack) := rfl
  obtain ⟨c, thousand, one⟩ := exists_unit_eq
  rw [one] at bound ⊢
  rw [model]
  rcases unpack_of_inUnits yFinite yUnits with ⟨t, yIs, rfl⟩ | ⟨n, f, nPositive, yIs, yRange, rfl⟩
  · cases positive
  · rcases unpack_of_inUnits xFinite xUnits with ⟨s, xIs, rfl⟩ | ⟨m, e, mPositive, xIs, xRange, rfl⟩
    · rw [xIs, yIs, Nat.zero_mul, roundedUnits_zero]
      exact ofUnpacked_zero _
    · have xLeast := xRange.least
      have yLeast := yRange.least
      -- The quotient is taken at this exponent, which is no higher than the place where it is rounded.
      obtain ⟨t, target⟩ : ∃ t, t = min (e - f)
          (Format.binary64.targetExponent (totalExponent m e - totalExponent n f)) := ⟨_, rfl⟩
      have value : t = min (e - f) (max (m.log2 + e - (n.log2 + f) - 53) (-1074)) := by
        have bits : (Format.binary64.mantissaBits : Int) = 53 := rfl
        have least : Format.binary64.minExponent = -1074 := rfl
        rw [target, Format.targetExponent, totalExponent, totalExponent, bits, least]
        omega
      obtain ⟨k, lowered⟩ : ∃ k : Nat, (e - f - t).toNat = k := ⟨_, rfl⟩
      obtain ⟨i, place⟩ : ∃ i : Nat, f + t + 2148 = i := ⟨_, (Int.toNat_of_nonneg (by omega)).symm⟩
      have dividend : units m e * 2 ^ c = m * 2 ^ k * 2 ^ i := by
        have exponents : (e + 1074).toNat + c = k + i := by omega
        rw [units, Nat.mul_assoc, Nat.mul_assoc, ← Nat.pow_add, ← Nat.pow_add, exponents]
      have divisor : units n f = n * 2 ^ (f + 1074).toNat := rfl
      have divided : UnpackedFloat.div Format.binary64 (.finite .positive m e mPositive)
          (.finite .positive n f nPositive) = roundWithAccuracy Format.binary64 (.positive / .positive)
            (m * 2 ^ k / n) t (accuracyOfFraction (m * 2 ^ k % n) n) := by
        rw [← Nat.shiftLeft_eq, ← lowered, target]
        rfl
      rw [xIs, yIs, divided]
      have low : t + 1074 ≤ excess (units m e * 2 ^ c / units n f) := by
        by_cases least : t ≤ -1074
        · omega
        · obtain ⟨l, length⟩ : ∃ l : Nat, t + 1126 = l := ⟨_, (Int.toNat_of_nonneg (by omega)).symm⟩
          have long : 2 ^ l ≤ units m e * 2 ^ c / units n f := two_pow_le_quotient mPositive positive (by omega)
          have nonzero : units m e * 2 ^ c / units n f ≠ 0 := by
            have power := Nat.two_pow_pos l
            omega
          have bits : l ≤ (units m e * 2 ^ c / units n f).log2 := (Nat.le_log2 nonzero).2 long
          rw [excess]
          omega
      rw [dividend, divisor] at bound low ⊢
      have rounded := inUnits_roundWithAccuracy (.positive / .positive) (a := m * 2 ^ k) nPositive (e := t)
        (i := i) (j := (f + 1074).toNat) (by omega) low bound
      exact rounded

end Operations

/-- What lies between zero and a finite number is finite. -/
theorem isFinite_of_le {x y : Float} (nonneg : 0 ≤ x) (below : x ≤ y) (finite : y.isFinite = true) :
    x.isFinite = true := by
  have number := (isNaN_of_le below).1
  have zero : (0 : Float).isNaN = false ∧ level 0 = 0 := by decide +kernel
  rw [le_iff zero.1 number, zero.2] at nonneg
  rw [le_iff number (isNaN_of_isFinite finite)] at below
  rw [isFinite_eq, decide_eq_true_iff] at finite ⊢
  intro top
  have xFraction := fraction_lt x
  have yFraction := fraction_lt y
  have yExponent := exponent_lt y
  rw [level, Parts.signed, Parts.magnitude] at nonneg below
  rw [level, Parts.signed, Parts.magnitude] at below
  split_ifs at nonneg below <;> omega

section Hundredths
variable {p p' : Float} {n : Int64}

/-- A percentage of a count, rounded once when it is divided and again when it is multiplied. -/
theorem hundredths_eq {a t : Nat} (finite : p.isFinite = true) (value : inUnits p = a)
    (high : a ≤ 100 * unit) (count : inUnits (ofInt64 n) = t) :
    (p / 100 * ofInt64 n).isFinite = true ∧
      inUnits (p / 100 * ofInt64 n) = (roundedUnits (roundedUnits (a * unit) (100 * unit) * t) unit : Nat) := by
  have hundred : (100 : Float).isFinite = true ∧ inUnits 100 = (100 * unit : Nat) := by decide +kernel
  have positive : 0 < 100 * unit := Nat.mul_pos (by decide) unit_pos
  obtain ⟨nFinite, bound⟩ := ofInt64_bounded n
  rw [count, Int.natAbs_natCast] at bound
  obtain ⟨c, thousand, one⟩ := exists_unit_eq
  have share : a * unit / (100 * unit) ≤ 2 ^ c := by
    rw [← one]
    refine Nat.div_le_of_le_mul ?_
    exact Nat.mul_le_mul_right unit high
  have short : a * unit / (100 * unit) < 2 ^ (53 + 2044) :=
    Nat.lt_of_le_of_lt share (two_pow_lt_two_pow (by omega))
  obtain ⟨quotientFinite, quotient⟩ := div_eq finite hundred.1 value hundred.2 positive short
  have small : roundedUnits (a * unit) (100 * unit) ≤ 2 ^ (c + 1) := by
    have exponents := excess_mono share
    rw [excess, excess, Nat.log2_two_pow] at exponents
    refine Nat.le_trans (roundedUnits_le _ _) (Nat.pow_le_pow_right Nat.two_pos ?_)
    rw [excess]
    omega
  have product : roundedUnits (a * unit) (100 * unit) * t / unit < 2 ^ (53 + 2044) := by
    rw [one] at small ⊢
    rw [Nat.div_lt_iff_lt_mul (Nat.two_pow_pos c), ← Nat.pow_add]
    calc roundedUnits (a * 2 ^ c) (100 * 2 ^ c) * t
        ≤ 2 ^ (c + 1) * 2 ^ (53 + 1084) := Nat.mul_le_mul small bound
      _ = 2 ^ (c + 1 + (53 + 1084)) := by rw [← Nat.pow_add]
      _ < 2 ^ (53 + 2044 + c) := two_pow_lt_two_pow (by omega)
  exact mul_eq quotientFinite nFinite quotient count product

/-- A greater percentage of a count is no less. -/
theorem hundredths_mono (nonneg : 0 ≤ p) (order : p ≤ p') (high : p' ≤ 100) (count : 0 ≤ n) :
    p / 100 * ofInt64 n ≤ p' / 100 * ofInt64 n := by
  have zero : (0 : Float).isFinite = true ∧ inUnits 0 = 0 := by decide +kernel
  have hundred : (100 : Float).isFinite = true ∧ inUnits 100 = (100 * unit : Nat) := by decide +kernel
  have nothing : inUnits (ofInt64 0) = 0 := by decide +kernel
  have finite' : p'.isFinite = true := isFinite_of_le (float_le_trans nonneg order) high hundred.1
  have finite : p.isFinite = true := isFinite_of_le nonneg order finite'
  rw [le_iff_inUnits zero.1 finite, zero.2] at nonneg
  rw [le_iff_inUnits finite finite'] at order
  rw [le_iff_inUnits finite' hundred.1, hundred.2] at high
  have counted := inUnits_ofInt64_mono count
  rw [nothing] at counted
  obtain ⟨a, value⟩ := Int.eq_ofNat_of_zero_le nonneg
  obtain ⟨a', value'⟩ := Int.eq_ofNat_of_zero_le (Int.le_trans nonneg order)
  obtain ⟨t, total⟩ := Int.eq_ofNat_of_zero_le counted
  rw [value, value', Int.ofNat_le] at order
  rw [value', Int.ofNat_le] at high
  obtain ⟨scaledFinite, scaled⟩ := hundredths_eq finite value (Nat.le_trans order high) total
  obtain ⟨scaledFinite', scaled'⟩ := hundredths_eq finite' value' high total
  rw [le_iff_inUnits scaledFinite scaledFinite', scaled, scaled', Int.ofNat_le]
  have shares : roundedUnits (a * unit) (100 * unit) ≤ roundedUnits (a' * unit) (100 * unit) :=
    roundedUnits_mono _ (Nat.mul_le_mul_right _ order)
  exact roundedUnits_mono _ (Nat.mul_le_mul_right t shares)

end Hundredths

end Rollup.Number.Binary64
