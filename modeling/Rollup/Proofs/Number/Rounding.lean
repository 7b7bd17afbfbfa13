import Rollup.Proofs.Number.Comparison
import Rollup.Proofs.Number.Quotient

/-! Rounding as integer division: a number in units of the least positive one is divided by the power of two that
leaves 53 bits of it, and the quotient is kept or increased by one. -/

namespace Rollup.Number.Binary64
open Float.Model Float.Model.UnpackedFloat

/-- A significand and a scale as a multiple of the least positive number. -/
def units (m : Nat) (e : Int) : Nat := m * 2 ^ (e + 1074).toNat

theorem targetExponent_eq (m : Nat) (e : Int) :
    Format.binary64.targetExponent (totalExponent m e) = max (m.log2 + e - 52) (-1074) := by
  have bits : (Format.binary64.mantissaBits : Int) = 53 := rfl
  have least : Format.binary64.minExponent = -1074 := rfl
  rw [Format.targetExponent, totalExponent, bits, least]
  omega

theorem log2_mul_two_pow {m : Nat} (positive : 0 < m) (n : Nat) : (m * 2 ^ n).log2 = m.log2 + n := by
  induction n with
  | zero => rw [Nat.pow_zero, Nat.mul_one, Nat.add_zero]
  | succ n ih =>
    have nonzero : m * 2 ^ n ≠ 0 := Nat.ne_of_gt (Nat.mul_pos positive (Nat.two_pow_pos n))
    have double : m * 2 ^ (n + 1) = 2 * (m * 2 ^ n) := by
      rw [Nat.pow_succ, ← Nat.mul_assoc, Nat.mul_comm]
    rw [double, Nat.log2_two_mul nonzero, ih]
    omega

theorem log2_div_two_pow (v j : Nat) : (v / 2 ^ j).log2 = v.log2 - j := by
  by_cases short : v < 2 ^ j
  · rw [Nat.div_eq_of_lt short, Nat.log2_zero]
    by_cases zero : v = 0
    · rw [zero, Nat.log2_zero, Nat.zero_sub]
    · have bits := (Nat.log2_lt zero).2 short
      omega
  · have zero : v ≠ 0 := by
      have power := Nat.two_pow_pos j
      omega
    have long : j ≤ v.log2 := (Nat.le_log2 zero).2 (Nat.le_of_not_lt short)
    have quotient : v / 2 ^ j ≠ 0 :=
      Nat.ne_of_gt ((Nat.one_le_div_iff (Nat.two_pow_pos j)).2 (Nat.le_of_not_lt short))
    refine (Nat.log2_eq_iff quotient).2 ⟨?_, ?_⟩
    · rw [Nat.le_div_iff_mul_le (Nat.two_pow_pos j), ← Nat.pow_add, Nat.sub_add_cancel long]
      exact Nat.log2_self_le zero
    · rw [Nat.div_lt_iff_lt_mul (Nat.two_pow_pos j), ← Nat.pow_add]
      have total : v.log2 - j + 1 + j = v.log2 + 1 := by omega
      rw [total]
      exact Nat.lt_log2_self

/-- A significand that was rounded up to 54 bits is a power of two and loses a zero. -/
theorem shiftToTargetExponent_of_le {m : Nat} {e : Int} (positive : 0 < m) (short : m ≤ 2 ^ 53)
    (least : -1074 ≤ e) :
    ∃ m' e', (shiftToTargetExponent Format.binary64 m e .exact).1.mantissa = m' ∧
      (shiftToTargetExponent Format.binary64 m e .exact).2 = e' ∧ 0 < m' ∧ m' < 2 ^ 53 ∧
      (m' = m ∧ e' = e ∨ m' = 2 ^ 52 ∧ m = 2 ^ 53 ∧ e' = e + 1) := by
  have nonzero : m ≠ 0 := Nat.ne_of_gt positive
  unfold shiftToTargetExponent shiftToExponent
  simp only [targetExponent_eq]
  by_cases carried : m = 2 ^ 53
  · have shift : (max ((m.log2 : Int) + e - 52) (-1074) - e).toNat = 1 := by
      rw [carried, Nat.log2_two_pow]
      omega
    rw [shift]
    refine ⟨2 ^ 52, e + 1, ?_, rfl, Nat.two_pow_pos 52, by omega, .inr ⟨rfl, carried, rfl⟩⟩
    show m / 2 = 2 ^ 52
    omega
  · have bits : m.log2 < 53 := (Nat.log2_lt nonzero).2 (by omega)
    have shift : (max ((m.log2 : Int) + e - 52) (-1074) - e).toNat = 0 := by omega
    rw [shift]
    exact ⟨m, e, rfl, Int.add_zero e, positive, by omega, .inl ⟨rfl, rfl⟩⟩

/-- The least number of low bits that must go to leave 53. -/
def excess (v : Nat) : Nat := v.log2 - 52

theorem two_pow_excess_le {v : Nat} (positive : 0 < v) : 1 ≤ v / 2 ^ excess v := by
  have nonzero : v ≠ 0 := Nat.ne_of_gt positive
  have enough : 2 ^ excess v ≤ v := by
    apply (Nat.le_log2 nonzero).1
    exact Nat.sub_le v.log2 52
  exact (Nat.one_le_div_iff (Nat.two_pow_pos _)).2 enough

theorem div_two_pow_excess_lt (v : Nat) : v / 2 ^ excess v < 2 ^ 53 := by
  rw [Nat.div_lt_iff_lt_mul (Nat.two_pow_pos _), ← Nat.pow_add]
  have bound : v < 2 ^ (v.log2 + 1) := Nat.lt_log2_self
  have exponent : v.log2 + 1 ≤ 53 + excess v := by
    rw [excess]
    omega
  exact Nat.lt_of_lt_of_le bound (Nat.pow_le_pow_right Nat.two_pos exponent)

theorem full_of_excess {v : Nat} (h : excess v ≠ 0) : 2 ^ 52 ≤ v / 2 ^ excess v := by
  have long : 52 < v.log2 := by
    rw [excess] at h
    omega
  have nonzero : v ≠ 0 := by
    intro zero
    rw [zero, Nat.log2_zero] at long
    omega
  rw [Nat.le_div_iff_mul_le (Nat.two_pow_pos _), ← Nat.pow_add]
  apply (Nat.le_log2 nonzero).1
  rw [excess]
  omega

/-- A quotient of units, rounded to 53 bits. -/
def roundedUnits (a b : Nat) : Nat := nearestQuotient a (b * 2 ^ excess (a / b)) * 2 ^ excess (a / b)

theorem nearestQuotient_excess_le (a b : Nat) : nearestQuotient a (b * 2 ^ excess (a / b)) ≤ 2 ^ 53 := by
  have above := nearestQuotient_le a (b * 2 ^ excess (a / b))
  have short := div_two_pow_excess_lt (a / b)
  rw [Nat.div_div_eq_div_mul] at short
  omega

section Fraction
variable {a b i j : Nat} {e : Int}

/-- The exponent that a quotient is rounded at is known from its whole units. -/
theorem targetExponent_fraction (positive : 0 < b) (scale : e + 1074 + j = i)
    (low : e + 1074 ≤ excess (a * 2 ^ i / (b * 2 ^ j))) :
    Format.binary64.targetExponent (totalExponent (a / b) e) =
      (excess (a * 2 ^ i / (b * 2 ^ j)) : Int) - 1074 := by
  rw [← Nat.div_div_eq_div_mul, excess, log2_div_two_pow] at low ⊢
  rw [targetExponent_eq]
  by_cases whole : a / b = 0
  · have less : a < b := Nat.lt_of_div_eq_zero positive whole
    have short : a * 2 ^ i / b < 2 ^ i := by
      rw [Nat.div_lt_iff_lt_mul positive, Nat.mul_comm]
      exact Nat.mul_lt_mul_of_pos_left less (Nat.two_pow_pos i)
    have bits : (a * 2 ^ i / b).log2 = 0 ∨ (a * 2 ^ i / b).log2 < i := by
      by_cases zero : a * 2 ^ i / b = 0
      · exact .inl (by rw [zero, Nat.log2_zero])
      · exact .inr ((Nat.log2_lt zero).2 short)
    rw [whole, Nat.log2_zero]
    omega
  · have bits : (a * 2 ^ i / b).log2 = (a / b).log2 + i := by
      have least : 2 ^ ((a / b).log2 + i) ≤ a * 2 ^ i / b := by
        rw [Nat.le_div_iff_mul_le positive, Nat.pow_add, Nat.mul_right_comm]
        refine Nat.mul_le_mul_right _ ?_
        rw [← Nat.le_div_iff_mul_le positive]
        exact Nat.log2_self_le whole
      have greatest : a * 2 ^ i / b < 2 ^ ((a / b).log2 + i + 1) := by
        rw [Nat.div_lt_iff_lt_mul positive, Nat.add_right_comm, Nat.pow_add, Nat.mul_right_comm]
        refine Nat.mul_lt_mul_of_pos_right ?_ (Nat.two_pow_pos i)
        rw [← Nat.div_lt_iff_lt_mul positive]
        exact Nat.lt_log2_self
      have some : a * 2 ^ i / b ≠ 0 := by
        have power := Nat.two_pow_pos ((a / b).log2 + i)
        omega
      exact (Nat.log2_eq_iff some).2 ⟨least, greatest⟩
    rw [bits]
    omega

/-- A significand and what was cut off from it are shifted to the bits that are kept, and rounded like the
quotient that they stand for. -/
theorem exists_shiftToTargetExponent_eq (positive : 0 < b) (scale : e + 1074 + j = i)
    (low : e + 1074 ≤ excess (a * 2 ^ i / (b * 2 ^ j))) :
    ∃ m, shiftToTargetExponent Format.binary64 (a / b) e (accuracyOfFraction (a % b) b) =
        (m, (excess (a * 2 ^ i / (b * 2 ^ j)) : Int) - 1074) ∧
      m.roundedMantissa =
        nearestQuotient (a * 2 ^ i) (b * 2 ^ j * 2 ^ excess (a * 2 ^ i / (b * 2 ^ j))) := by
  have target := targetExponent_fraction positive scale low
  generalize excess (a * 2 ^ i / (b * 2 ^ j)) = x at *
  obtain ⟨n, shift⟩ : ∃ n : Nat, (x : Int) - 1074 - e = n := ⟨_, (Int.toNat_of_nonneg (by omega)).symm⟩
  refine ⟨ExtendedMantissa.ofMantissaAndAccuracy (a / b) (accuracyOfFraction (a % b) b) >>> n, ?_, ?_⟩
  · have amount : ((x : Int) - 1074 - e).toNat = n := by omega
    have sum : e + n = (x : Int) - 1074 := by omega
    unfold shiftToTargetExponent shiftToExponent
    simp only [target, amount, sum]
  · have divisor : b * 2 ^ j * 2 ^ x = b * 2 ^ n * 2 ^ i := by
      rw [Nat.mul_assoc, Nat.mul_assoc, ← Nat.pow_add, ← Nat.pow_add]
      congr 2
      omega
    rw [divisor, nearestQuotient_mul_right (Nat.two_pow_pos i)]
    exact ((Represents.ofFraction a positive).shiftRight positive n).roundedMantissa

/-- What a quotient is rounded to, if not to zero, is as long as 53 bits allow. -/
theorem exists_roundWithAccuracy_eq (s : Sign) (positive : 0 < b) (scale : e + 1074 + j = i)
    (low : e + 1074 ≤ excess (a * 2 ^ i / (b * 2 ^ j)))
    (some : 0 < nearestQuotient (a * 2 ^ i) (b * 2 ^ j * 2 ^ excess (a * 2 ^ i / (b * 2 ^ j)))) :
    ∃ m f, ∃ mPositive : 0 < m,
      roundWithAccuracy Format.binary64 s (a / b) e (accuracyOfFraction (a % b) b) =
        .finite s m f mPositive ∧
      m < 2 ^ 53 ∧ (2 ^ 52 ≤ m ∨ f = -1074) ∧ -1074 ≤ f ∧
      f + 1074 ≤ excess (a * 2 ^ i / (b * 2 ^ j)) + 1 ∧
      units m f = roundedUnits (a * 2 ^ i) (b * 2 ^ j) := by
  obtain ⟨shifted, first, rounded⟩ := exists_shiftToTargetExponent_eq positive scale low
  have roundedLe := nearestQuotient_excess_le (a * 2 ^ i) (b * 2 ^ j)
  have roundedGe := div_le_nearestQuotient (a * 2 ^ i) (b * 2 ^ j * 2 ^ excess (a * 2 ^ i / (b * 2 ^ j)))
  have whole : excess (a * 2 ^ i / (b * 2 ^ j)) ≠ 0 → _ := full_of_excess
  rw [Nat.div_div_eq_div_mul] at whole
  rw [roundedUnits]
  generalize excess (a * 2 ^ i / (b * 2 ^ j)) = x at *
  generalize nearestQuotient (a * 2 ^ i) (b * 2 ^ j * 2 ^ x) = r at *
  obtain ⟨m, f, mantissa, exponent, mPositive, short, carried⟩ :=
    shiftToTargetExponent_of_le some roundedLe (e := (x : Int) - 1074) (by omega)
  have result : roundWithAccuracy Format.binary64 s (a / b) e (accuracyOfFraction (a % b) b) =
      .finite s m f mPositive := by
    have nonzero : m ≠ 0 := Nat.ne_of_gt mPositive
    unfold roundWithAccuracy
    rw [first]
    dsimp only
    rw [rounded]
    subst mantissa exponent
    exact dif_neg nonzero
  have value : units m f = r * 2 ^ x := by
    rcases carried with ⟨rfl, rfl⟩ | ⟨rfl, carry, rfl⟩
    · have place : ((x : Int) - 1074 + 1074).toNat = x := by omega
      rw [units, place]
    · have place : ((x : Int) - 1074 + 1 + 1074).toNat = x + 1 := by omega
      have powers : 52 + (x + 1) = 53 + x := by omega
      rw [units, place, carry, ← Nat.pow_add, ← Nat.pow_add, powers]
  have full : 2 ^ 52 ≤ m ∨ f = -1074 := by
    by_cases least : x = 0
    · omega
    · have long := whole least
      omega
  exact ⟨m, f, mPositive, result, short, full, by omega, by omega, value⟩

end Fraction

theorem units_eq_of_add {m a : Nat} {e f : Int} (least : -1074 ≤ f) (moved : e = f + a) :
    units (m * 2 ^ a) f = units m e := by
  have exponents : (e + 1074).toNat = a + (f + 1074).toNat := by omega
  rw [units, units, exponents, Nat.pow_add, Nat.mul_assoc]

/-- A significand and a scale that units are rounded to. They are as long as 53 bits allow, and the units
are divided by the power of two that leaves 53 of their bits, and the quotient is that or the next integer,
the nearer one of them. -/
structure Nearest (v m : Nat) (e : Int) : Prop where
  positive : 0 < m
  short : m < 2 ^ 53
  full : 2 ^ 52 ≤ m ∨ e = -1074
  least : -1074 ≤ e
  bounded : e + 1074 ≤ excess v + 1
  close : ∃ up ≤ 1, units m e = (v / 2 ^ excess v + up) * 2 ^ excess v ∧
    (2 * (v % 2 ^ excess v) < 2 ^ excess v → up = 0) ∧
    (2 ^ excess v < 2 * (v % 2 ^ excess v) → up = 1)

theorem roundWithAccuracy_eq (s : Sign) {m : Nat} {e : Int} (positive : 0 < m) (least : -1074 ≤ e)
    (low : e + 1074 ≤ excess (units m e)) :
    ∃ m' e', ∃ near : Nearest (units m e) m' e',
      roundWithAccuracy Format.binary64 s m e .exact = .finite s m' e' near.positive := by
  obtain ⟨i, place⟩ : ∃ i, i = (e + 1074).toNat := ⟨_, rfl⟩
  have product : m * 2 ^ i = units m e := by rw [units, place]
  -- An exact significand is a quotient by one.
  have exact := exists_roundWithAccuracy_eq s (a := m) Nat.one_pos (e := e) (i := i) (j := 0) (by omega)
  rw [roundedUnits, product, Nat.pow_zero, Nat.mul_one, Nat.div_one, Nat.one_mul, Nat.div_one,
    Nat.mod_one] at exact
  have quotientPositive := two_pow_excess_le (Nat.mul_pos positive (Nat.two_pow_pos (e + 1074).toNat))
  obtain ⟨up, upLe, nearest, down, upward⟩ := exists_nearestQuotient_eq (units m e) (2 ^ excess (units m e))
  rw [nearest] at exact
  obtain ⟨m', e', mPositive, result, short, full, least', bounded, value⟩ :=
    exact low (Nat.lt_of_lt_of_le quotientPositive (Nat.le_add_right _ up))
  exact ⟨m', e', ⟨mPositive, short, full, least', bounded, up, upLe, value, down, upward⟩, result⟩

/-- Rounding divides the units by the power of two that leaves 53 bits. -/
theorem round_eq (s : Sign) {m : Nat} {e : Int} (positive : 0 < m) (least : -1074 ≤ e) :
    ∃ m' e', ∃ near : Nearest (units m e) m' e',
      UnpackedFloat.round Format.binary64 s m e = .finite s m' e' near.positive := by
  have length : (units m e).log2 = m.log2 + (e + 1074).toNat := log2_mul_two_pow positive _
  have target : Format.binary64.targetExponent (totalExponent m e) =
      (excess (units m e) : Int) - 1074 := by
    rw [targetExponent_eq, excess, length]
    omega
  obtain ⟨a, lowered⟩ : ∃ a : Nat, (e - ((excess (units m e) : Int) - 1074)).toNat = a := ⟨_, rfl⟩
  have exact : UnpackedFloat.round Format.binary64 s m e =
      roundWithAccuracy Format.binary64 s (m * 2 ^ a) (e - a) .exact := by
    unfold UnpackedFloat.round decreaseExponent
    simp only [target, lowered, Nat.shiftLeft_eq]
  have same : units (m * 2 ^ a) (e - a) = units m e := units_eq_of_add (by omega) (by omega)
  have rounded := roundWithAccuracy_eq s (m := m * 2 ^ a) (e := e - a)
    (Nat.mul_pos positive (Nat.two_pow_pos a)) (by omega)
  rw [same] at rounded
  rw [exact]
  exact rounded (by omega)

/-- The low bits that go from the units of a number in range are its scale. -/
theorem InRange.excess_units {m : Nat} {e : Int} (range : InRange m e) (positive : 0 < m) :
    (excess (units m e) : Int) = e + 1074 := by
  have short := range.short
  have least := range.least
  have nonzero : m ≠ 0 := Nat.ne_of_gt positive
  have length : (units m e).log2 = m.log2 + (e + 1074).toNat := log2_mul_two_pow positive _
  have bits : m.log2 < 53 := (Nat.log2_lt nonzero).2 short
  rw [excess, length]
  rcases range.full with full | low
  · have top : 52 ≤ m.log2 := (Nat.le_log2 nonzero).2 full
    omega
  · omega

/-- A number in range is rounded to itself. -/
theorem InRange.nearest {m : Nat} {e : Int} (range : InRange m e) (positive : 0 < m) :
    Nearest (units m e) m e := by
  have place := range.excess_units positive
  have least := range.least
  have exponent : excess (units m e) = (e + 1074).toNat := by omega
  have remainder : units m e % 2 ^ excess (units m e) = 0 := by
    rw [exponent]
    exact Nat.mul_mod_left m _
  have quotient : units m e / 2 ^ excess (units m e) = m := by
    rw [exponent]
    exact Nat.mul_div_cancel m (Nat.two_pow_pos _)
  have whole : ¬2 ^ excess (units m e) < 2 * (units m e % 2 ^ excess (units m e)) := by
    rw [remainder]
    exact Nat.not_lt_zero _
  refine ⟨positive, range.short, range.full, least, by omega, 0, Nat.zero_le 1, ?_, fun _ => rfl,
    fun more => absurd more whole⟩
  rw [quotient, exponent]
  rfl

theorem excess_lt_of_lt {v j : Nat} (bound : v < 2 ^ (53 + j)) : excess v ≤ j := by
  by_cases zero : v = 0
  · rw [zero]
    exact Nat.zero_le j
  · have bits : v.log2 < 53 + j := (Nat.log2_lt zero).2 bound
    rw [excess]
    omega

namespace Nearest
variable {v m : Nat} {e : Int}

theorem inRange (near : Nearest v m e) (bound : v < 2 ^ (53 + 2044)) : InRange m e := by
  have low : excess v ≤ 2044 := excess_lt_of_lt bound
  have bounded := near.bounded
  exact ⟨near.short, near.full, near.least, by omega⟩

/-- Units that are a multiple of the divisor are kept. -/
theorem units_eq_of_dvd (near : Nearest v m e) (whole : 2 ^ excess v ∣ v) : units m e = v := by
  obtain ⟨up, -, quotient, down, -⟩ := near.close
  have remainder : v % 2 ^ excess v = 0 := Nat.mod_eq_zero_of_dvd whole
  have zero : up = 0 := by
    apply down
    rw [remainder]
    exact Nat.two_pow_pos _
  rw [quotient, zero, Nat.add_zero]
  exact Nat.div_mul_cancel whole

/-- Rounding up does not go beyond the next power of two. -/
theorem units_le_two_pow (near : Nearest v m e) : units m e ≤ 2 ^ (53 + excess v) := by
  obtain ⟨up, upLe, quotient, -⟩ := near.close
  have short := div_two_pow_excess_lt v
  rw [quotient, Nat.pow_add]
  apply Nat.mul_le_mul_right
  omega

/-- A small surplus over a power of two is lost. -/
theorem units_le (near : Nearest v m e) {j : Nat} (bound : v < 2 ^ (53 + j) + 2 ^ j) :
    units m e ≤ 2 ^ (53 + j) := by
  by_cases below : v < 2 ^ (53 + j)
  · have low : excess v ≤ j := excess_lt_of_lt below
    exact Nat.le_trans near.units_le_two_pow (Nat.pow_le_pow_right Nat.two_pos (by omega))
  · obtain ⟨up, upLe, quotient, down, -⟩ := near.close
    rw [quotient]
    have nonzero : v ≠ 0 := by
      have positive : 0 < 2 ^ (53 + j) := Nat.two_pow_pos _
      omega
    have surplus : 2 ^ j ≤ 2 ^ (53 + j) := Nat.pow_le_pow_right Nat.two_pos (by omega)
    have next : 2 ^ (53 + j + 1) = 2 ^ (53 + j) + 2 ^ (53 + j) := by
      rw [Nat.pow_succ]
      omega
    have bits : v.log2 = 53 + j := (Nat.log2_eq_iff nonzero).2 ⟨by omega, by omega⟩
    have exponent : excess v = j + 1 := by
      rw [excess, bits]
      omega
    have power : 2 ^ (53 + j) = 2 ^ 52 * 2 ^ (j + 1) := by
      rw [← Nat.pow_add]
      congr 1
      omega
    have half : 2 ^ (j + 1) = 2 ^ j + 2 ^ j := by
      rw [Nat.pow_succ]
      omega
    have divided : v / 2 ^ (j + 1) = 2 ^ 52 ∧ v % 2 ^ (j + 1) = v - 2 ^ (53 + j) := by
      rw [Nat.div_mod_unique (Nat.two_pow_pos _)]
      constructor
      · rw [Nat.mul_comm, ← power]
        omega
      · omega
    have zero : up = 0 := by
      apply down
      rw [exponent, divided.2]
      omega
    apply Nat.le_of_eq
    rw [exponent, divided.1, zero, Nat.add_zero, power]

/-- Rounding keeps the order. -/
theorem units_mono (near : Nearest v m e) {w n : Nat} {f : Int} (near' : Nearest w n f) (less : v < w) :
    units m e ≤ units n f := by
  obtain ⟨up, upLe, quotient, down, -⟩ := near.close
  obtain ⟨up', upLe', quotient', -, upward'⟩ := near'.close
  have nonzero : w ≠ 0 := by omega
  have bits : v.log2 ≤ w.log2 := by
    by_cases zero : v = 0
    · rw [zero, Nat.log2_zero]
      exact Nat.zero_le _
    · rw [Nat.le_log2 nonzero]
      exact Nat.le_trans (Nat.log2_self_le zero) (Nat.le_of_lt less)
  by_cases same : excess v = excess w
  · rw [same] at quotient down
    rw [quotient, quotient']
    apply Nat.mul_le_mul_right
    have quotients : v / 2 ^ excess w ≤ w / 2 ^ excess w := Nat.div_le_div_right (Nat.le_of_lt less)
    have vParts := Nat.div_add_mod v (2 ^ excess w)
    have wParts := Nat.div_add_mod w (2 ^ excess w)
    by_cases apart : v / 2 ^ excess w < w / 2 ^ excess w
    · omega
    · have equal : v / 2 ^ excess w = w / 2 ^ excess w := by omega
      have remainders : v % 2 ^ excess w < w % 2 ^ excess w := by
        rw [equal] at vParts
        omega
      by_cases low : 2 * (v % 2 ^ excess w) < 2 ^ excess w
      · have kept := down low
        omega
      · have raised := upward' (by omega)
        omega
  · have longer : excess v < excess w := by
      have order : excess v ≤ excess w := Nat.sub_le_sub_right bits 52
      omega
    have full : 2 ^ 52 ≤ w / 2 ^ excess w := full_of_excess (by omega)
    calc units m e ≤ 2 ^ (53 + excess v) := near.units_le_two_pow
      _ ≤ 2 ^ (52 + excess w) := Nat.pow_le_pow_right Nat.two_pos (by omega)
      _ = 2 ^ 52 * 2 ^ excess w := Nat.pow_add 2 52 _
      _ ≤ (w / 2 ^ excess w + up') * 2 ^ excess w := Nat.mul_le_mul_right _ (by omega)
      _ = units n f := quotient'.symm

end Nearest

/-- Numbers in range with the same units are the same. -/
theorem InRange.eq_of_units {m n : Nat} {e f : Int} (mRange : InRange m e) (nRange : InRange n f)
    (positive : 0 < m) (same : units m e = units n f) : m = n ∧ e = f := by
  have nPositive : 0 < n := by
    apply Nat.pos_of_ne_zero
    intro zero
    have nothing : units n f = 0 := by
      rw [zero]
      exact Nat.zero_mul _
    have something : 0 < units m e := Nat.mul_pos positive (Nat.two_pow_pos _)
    omega
  have mPlace := mRange.excess_units positive
  have nPlace := nRange.excess_units nPositive
  rw [same] at mPlace
  have exponent : e = f := by omega
  subst exponent
  exact ⟨Nat.eq_of_mul_eq_mul_right (Nat.two_pow_pos _) same, rfl⟩

/-- A longer scale means more units, and among equal scales a greater significand. -/
theorem InRange.units_lt {m n : Nat} {e f : Int} (mRange : InRange m e) (nRange : InRange n f)
    (before : (compare e f).then (compare m n) = .lt) : units m e < units n f := by
  have mShort := mRange.short
  have mLeast := mRange.least
  rw [Ordering.then_eq_lt, Int.compare_eq_lt, Std.LawfulEqOrd.compare_eq_iff_eq,
    Nat.compare_eq_lt] at before
  rcases before with less | ⟨same, less⟩
  · have full : 2 ^ 52 ≤ n := by
      rcases nRange.full with full | low
      · exact full
      · omega
    have exponents : 53 + (e + 1074).toNat ≤ 52 + (f + 1074).toNat := by omega
    calc units m e
        < 2 ^ 53 * 2 ^ (e + 1074).toNat := Nat.mul_lt_mul_of_pos_right mShort (Nat.two_pow_pos _)
      _ = 2 ^ (53 + (e + 1074).toNat) := (Nat.pow_add 2 53 _).symm
      _ ≤ 2 ^ (52 + (f + 1074).toNat) := Nat.pow_le_pow_right Nat.two_pos exponents
      _ = 2 ^ 52 * 2 ^ (f + 1074).toNat := Nat.pow_add 2 52 _
      _ ≤ units n f := Nat.mul_le_mul_right _ full
  · rw [same]
    exact Nat.mul_lt_mul_of_pos_right less (Nat.two_pow_pos _)

end Rollup.Number.Binary64
