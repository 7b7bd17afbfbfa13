import Rollup.Proofs.Number.Rounding
import Rollup.Stat.Operator

namespace Rollup.Number.Binary64
open Float.Model Float.Model.UnpackedFloat

/-- The value of a finite number in units of the least positive one. -/
def inUnits (x : Float) : Int := (parts x).sign.apply (units (parts x).significand (parts x).scale)

theorem apply_neg (s : Sign) (n : Int) : (-s).apply n = -s.apply n := by
  cases s with
  | negative => exact (Int.neg_neg n).symm
  | positive => rfl

theorem natAbs_apply (s : Sign) (n : Nat) : (s.apply (n : Int)).natAbs = n := by
  cases s with
  | negative => exact (Int.natAbs_neg _).trans (Int.natAbs_natCast n)
  | positive => exact Int.natAbs_natCast n

theorem isNaN_of_isFinite {x : Float} (finite : x.isFinite = true) : x.isNaN = false := by
  rw [isFinite_eq, decide_eq_true_iff] at finite
  rw [isNaN_eq, decide_eq_false_iff_not]
  intro special
  exact finite special.1

/-- A finite number is a zero or a significand and a scale in range. -/
theorem unpack_of_isFinite {x : Float} (finite : x.isFinite = true) :
    (∃ s, x.toModel.unpack = .zero s ∧ inUnits x = 0) ∨
      ∃ s m e, ∃ positive : 0 < m, x.toModel.unpack = .finite s m e positive ∧ InRange m e ∧
        inUnits x = s.apply (units m e) := by
  rw [isFinite_eq, decide_eq_true_iff] at finite
  rw [unpack_eq, if_neg finite]
  by_cases zero : (parts x).significand = 0
  · left
    rw [dif_pos zero]
    refine ⟨_, rfl, ?_⟩
    rw [inUnits, zero, units, Nat.zero_mul]
    cases (parts x).sign with
    | negative => rfl
    | positive => rfl
  · right
    rw [dif_neg zero]
    exact ⟨_, _, _, Nat.pos_of_ne_zero zero, rfl, inRange_parts finite, rfl⟩

theorem InRange.ofUnpacked_finite {m : Nat} {e : Int} (range : InRange m e) (s : Sign)
    (positive : 0 < m) :
    (ofUnpacked (.finite s m e positive)).isFinite = true ∧
      inUnits (ofUnpacked (.finite s m e positive)) = s.apply (units m e) := by
  obtain ⟨exponent, significand, scale, sign⟩ := range.parts_finite s positive
  constructor
  · rw [isFinite_eq]
    exact decide_eq_true exponent
  · rw [inUnits, significand, scale, sign]

theorem ofUnpacked_zero (s : Sign) :
    (ofUnpacked (.zero s)).isFinite = true ∧ inUnits (ofUnpacked (.zero s)) = 0 := by
  cases s with
  | negative => exact ⟨rfl, rfl⟩
  | positive => exact ⟨rfl, rfl⟩

/-- What an exact value in units is rounded to: a zero for zero, else the nearest number of its sign. -/
def RoundedTo (v : Int) (u : UnpackedFloat) : Prop :=
  (∃ s, u = .zero s ∧ v = 0) ∨
    ∃ s m e, ∃ near : Nearest v.natAbs m e, u = .finite s m e near.positive ∧ v = s.apply v.natAbs

theorem normalize_eq {n : Int} {e : Int} (least : -1074 ≤ e) :
    RoundedTo (n * 2 ^ (e + 1074).toNat) (UnpackedFloat.normalize Format.binary64 n e .positive) := by
  have power : 0 < (2 : Int) ^ (e + 1074).toNat := Int.pow_pos (by decide)
  have absolute : (n * 2 ^ (e + 1074).toNat).natAbs = units n.natAbs e := by
    rw [Int.natAbs_mul, Int.natAbs_pow]
    rfl
  unfold UnpackedFloat.normalize
  rcases Int.lt_trichotomy n 0 with negative | zero | positive
  · right
    have magnitude : (-n).toNat = n.natAbs := by omega
    obtain ⟨m, f, near, rounded⟩ := round_eq .negative (m := n.natAbs) (by omega) least
    rw [Int.compare_eq_lt.2 negative]
    dsimp only
    rw [magnitude, rounded]
    refine ⟨.negative, m, f, absolute ▸ near, rfl, ?_⟩
    have below : n * 2 ^ (e + 1074).toNat < 0 := Int.mul_neg_of_neg_of_pos negative power
    show _ = -((n * 2 ^ (e + 1074).toNat).natAbs : Int)
    omega
  · left
    rw [zero]
    exact ⟨.positive, rfl, Int.zero_mul _⟩
  · right
    have magnitude : n.toNat = n.natAbs := by omega
    obtain ⟨m, f, near, rounded⟩ := round_eq .positive (m := n.natAbs) (by omega) least
    rw [Int.compare_eq_gt.2 positive]
    dsimp only
    rw [magnitude, rounded]
    refine ⟨.positive, m, f, absolute ▸ near, rfl, ?_⟩
    have above : 0 < n * 2 ^ (e + 1074).toNat := Int.mul_pos positive power
    show _ = ((n * 2 ^ (e + 1074).toNat).natAbs : Int)
    omega

theorem roundedTo_finite (s : Sign) {m : Nat} {e : Int} (range : InRange m e) (positive : 0 < m) :
    RoundedTo (s.apply (units m e)) (.finite s m e positive) := by
  right
  have absolute := natAbs_apply s (units m e)
  exact ⟨s, m, e, absolute.symm ▸ range.nearest positive, rfl, by rw [absolute]⟩

/-- Aligning a significand to a smaller exponent keeps the units. -/
theorem apply_decreaseExponent (s : Sign) {m : Nat} {e f : Int} (least : -1074 ≤ f) (below : f ≤ e) :
    s.apply ((decreaseExponent m e f).1 : Int) * 2 ^ (f + 1074).toNat = s.apply (units m e) := by
  have exponents : (e + 1074).toNat = (e - f).toNat + (f + 1074).toNat := by omega
  have shifted : (decreaseExponent m e f).1 * 2 ^ (f + 1074).toNat = units m e := by
    rw [decreaseExponent, units, exponents, Nat.pow_add, ← Nat.mul_assoc, Nat.shiftLeft_eq]
  rw [← shifted]
  cases s with
  | negative =>
    show -((decreaseExponent m e f).1 : Int) * 2 ^ (f + 1074).toNat = -(_ : Int)
    push_cast
    rw [Int.neg_mul]
  | positive =>
    show ((decreaseExponent m e f).1 : Int) * 2 ^ (f + 1074).toNat = (_ : Int)
    push_cast
    rfl

/-- The sum of finite numbers is their exact sum, rounded. -/
theorem add_eq {x y : Float} (xFinite : x.isFinite = true) (yFinite : y.isFinite = true) :
    ∃ u, x + y = ofUnpacked u ∧ RoundedTo (inUnits x + inUnits y) u := by
  have model : x + y =
      ofUnpacked (UnpackedFloat.add Format.binary64 x.toModel.unpack y.toModel.unpack) := rfl
  refine ⟨_, model, ?_⟩
  rcases unpack_of_isFinite xFinite with ⟨s, xIs, xUnits⟩ | ⟨s, m, e, xPositive, xIs, xRange, xUnits⟩
  · rcases unpack_of_isFinite yFinite with ⟨t, yIs, yUnits⟩ | ⟨t, n, f, yPositive, yIs, yRange, yUnits⟩
    · rw [xIs, yIs, xUnits, yUnits]
      left
      cases s <;> cases t <;> exact ⟨_, rfl, rfl⟩
    · rw [xIs, yIs, xUnits, yUnits, Int.zero_add]
      exact roundedTo_finite t yRange yPositive
  · rcases unpack_of_isFinite yFinite with ⟨t, yIs, yUnits⟩ | ⟨t, n, f, yPositive, yIs, yRange, yUnits⟩
    · rw [xIs, yIs, xUnits, yUnits, Int.add_zero]
      exact roundedTo_finite s xRange xPositive
    · have least : -1074 ≤ min e f := by
        have xLeast := xRange.least
        have yLeast := yRange.least
        omega
      have xAligned := apply_decreaseExponent s (m := m) least (Int.min_le_left e f)
      have yAligned := apply_decreaseExponent t (m := n) least (Int.min_le_right e f)
      rw [xIs, yIs, xUnits, yUnits, ← xAligned, ← yAligned, ← Int.add_mul]
      exact normalize_eq least

theorem RoundedTo.inUnits_eq {v : Int} {u : UnpackedFloat} (rounded : RoundedTo v u)
    (bound : v.natAbs < 2 ^ (53 + 2044)) :
    (ofUnpacked u).isFinite = true ∧
      ((v = 0 ∧ inUnits (ofUnpacked u) = 0) ∨
        ∃ s m e, ∃ near : Nearest v.natAbs m e, u = .finite s m e near.positive ∧
          v = s.apply v.natAbs ∧ inUnits (ofUnpacked u) = s.apply (units m e)) := by
  rcases rounded with ⟨s, rfl, zero⟩ | ⟨s, m, e, near, rfl, sign⟩
  · exact ⟨(ofUnpacked_zero s).1, .inl ⟨zero, (ofUnpacked_zero s).2⟩⟩
  · obtain ⟨finite, value⟩ := (near.inRange bound).ofUnpacked_finite s near.positive
    exact ⟨finite, .inr ⟨s, m, e, near, rfl, sign, value⟩⟩

/-- A natural number of units is rounded to none only if there are none. -/
theorem RoundedTo.inUnits_natCast {v : Nat} {u : UnpackedFloat} (rounded : RoundedTo v u)
    (bound : v < 2 ^ (53 + 2044)) :
    (v = 0 ∧ inUnits (ofUnpacked u) = 0) ∨
      ∃ m e, Nearest v m e ∧ inUnits (ofUnpacked u) = (units m e : Nat) := by
  obtain ⟨-, value⟩ := rounded.inUnits_eq bound
  rcases value with ⟨zero, units⟩ | ⟨s, m, e, near, -, sign, units⟩
  · left
    exact ⟨Int.natCast_eq_zero.1 zero, units⟩
  · right
    rw [Int.natAbs_natCast] at near sign
    refine ⟨m, e, near, ?_⟩
    cases s with
    | negative =>
      have nothing : v = 0 := by
        simp only [Sign.apply] at sign
        omega
      have whole : 2 ^ excess v ∣ v := nothing ▸ Nat.dvd_zero _
      rw [units, near.units_eq_of_dvd whole, nothing]
      rfl
    | positive => exact units

/-- Rounding keeps the order of the values. -/
theorem RoundedTo.inUnits_mono {v w : Nat} {u t : UnpackedFloat} (first : RoundedTo v u)
    (second : RoundedTo w t) (less : v < w) (bound : w < 2 ^ (53 + 2044)) :
    inUnits (ofUnpacked u) ≤ inUnits (ofUnpacked t) := by
  rcases second.inUnits_natCast bound with ⟨zero, -⟩ | ⟨n, f, near', units'⟩
  · omega
  · rw [units']
    rcases first.inUnits_natCast (Nat.lt_trans less bound) with ⟨-, units⟩ | ⟨m, e, near, units⟩
    · rw [units]
      exact Int.natCast_nonneg _
    · rw [units, Int.ofNat_le]
      exact near.units_mono near' less

section Powers

-- With variables for exponents no step raises two to a literal of a thousand.
variable {i j : Nat}

theorem two_pow_positive (i : Nat) : 0 < 2 ^ i := Nat.two_pow_pos i

theorem two_pow_lt_two_pow (less : i < j) : 2 ^ i < 2 ^ j := Nat.pow_lt_pow_right Nat.one_lt_two less

theorem two_pow_dvd_two_pow (le : i ≤ j) : 2 ^ i ∣ 2 ^ j := Nat.pow_dvd_pow 2 le

theorem two_pow_add_self_le (less : i < j) : 2 ^ i + 2 ^ i ≤ 2 ^ j := by
  calc 2 ^ i + 2 ^ i = 2 ^ (i + 1) := by rw [Nat.pow_succ, Nat.mul_two]
    _ ≤ 2 ^ j := Nat.pow_le_pow_right Nat.two_pos less

end Powers

/-- A number within a power of two stays there when a number well below it is added. -/
theorem add_bounded {x y : Float} (xFinite : x.isFinite = true) (yFinite : y.isFinite = true) {j : Nat}
    (small : j ≤ 2043) (xBound : (inUnits x).natAbs ≤ 2 ^ (53 + j))
    (yBound : (inUnits y).natAbs < 2 ^ j) :
    (x + y).isFinite = true ∧ (inUnits (x + y)).natAbs ≤ 2 ^ (53 + j) := by
  obtain ⟨u, sum, rounded⟩ := add_eq xFinite yFinite
  have exact : (inUnits x + inUnits y).natAbs < 2 ^ (53 + j) + 2 ^ j := by omega
  have surplus : 2 ^ j ≤ 2 ^ (53 + j) := Nat.pow_le_pow_right Nat.two_pos (by omega)
  have next : 2 ^ (53 + j) + 2 ^ (53 + j) ≤ 2 ^ (53 + 2044) := two_pow_add_self_le (by omega)
  obtain ⟨finite, value⟩ := rounded.inUnits_eq (by omega)
  rw [sum]
  refine ⟨finite, ?_⟩
  rcases value with ⟨-, zero⟩ | ⟨s, m, e, near, -, -, value⟩
  · rw [zero]
    exact Nat.zero_le _
  · rw [value, natAbs_apply]
    exact near.units_le exact

theorem isNaN_roundWithAccuracy (s : Sign) (m : Nat) (e : Int) (a : Accuracy) :
    (roundWithAccuracy Format.binary64 s m e a).isNaN = false := by
  unfold roundWithAccuracy
  dsimp only
  rw [apply_dite UnpackedFloat.isNaN]
  exact dite_eq_ite.trans (ite_self false)

theorem isNaN_normalize (n : Int) (e : Int) : (UnpackedFloat.normalize Format.binary64 n e .positive).isNaN = false := by
  unfold UnpackedFloat.normalize
  split
  · exact isNaN_roundWithAccuracy _ _ _ _
  · rfl
  · exact isNaN_roundWithAccuracy _ _ _ _

theorem exists_unpack_zero {x : Float} (zero : x = 0 ∨ x = -0) : ∃ s, x.toModel.unpack = .zero s := by
  have fields : parts 0 = ⟨false, 0, 0⟩ ∧ parts (-0) = ⟨true, 0, 0⟩ := by decide +kernel
  rcases zero with rfl | rfl
  · exact ⟨.positive, by rw [unpack_eq, fields.1]; rfl⟩
  · exact ⟨.negative, by rw [unpack_eq, fields.2]; rfl⟩

theorem beq_zero_of_unpack {y : Float} {s : Sign} (zero : y.toModel.unpack = .zero s) :
    (y == 0) = true := by
  show (y.toModel.unpack.compare (0 : Float).toModel.unpack == some .eq) = true
  obtain ⟨t, unpacked⟩ := exists_unpack_zero (x := 0) (.inl rfl)
  rw [zero, unpacked]
  rfl

/-- A zero times a finite number is a zero. -/
theorem mul_of_zero {x y : Float} (zero : x = 0 ∨ x = -0) (finite : y.isFinite = true) :
    x * y = 0 ∨ x * y = -0 := by
  obtain ⟨s, xIs⟩ := exists_unpack_zero zero
  have product : ∃ t, UnpackedFloat.mul Format.binary64 x.toModel.unpack y.toModel.unpack = .zero t := by
    rw [xIs]
    rcases unpack_of_isFinite finite with ⟨t, yIs, -⟩ | ⟨t, n, f, positive, yIs, -⟩ <;> rw [yIs]
    · exact ⟨_, rfl⟩
    · exact ⟨_, rfl⟩
  obtain ⟨t, product⟩ := product
  have packed : x * y = ofUnpacked (.zero t) := congrArg ofUnpacked product
  rw [packed, eq_zero_iff, eq_neg_zero_iff, level, parts_zero]
  cases t with
  | negative => exact .inr ⟨rfl, rfl⟩
  | positive => exact .inl ⟨rfl, rfl⟩

/-- Combining finite totals gives a number: only a quotient by zero would not, and that counts as
zero. -/
theorem isNaN_combine (op : AggregateOp) {x y : Float} (xFinite : x.isFinite = true)
    (yFinite : y.isFinite = true) : (op.combine x y).isNaN = false := by
  have xCases := unpack_of_isFinite xFinite
  have yCases := unpack_of_isFinite yFinite
  cases op with
  | add =>
    refine isNaN_ofUnpacked (u := UnpackedFloat.add Format.binary64 x.toModel.unpack y.toModel.unpack) ?_
    rcases xCases with ⟨s, xIs, -⟩ | ⟨s, m, e, xPositive, xIs, -⟩ <;>
      rcases yCases with ⟨t, yIs, -⟩ | ⟨t, n, f, yPositive, yIs, -⟩ <;> rw [xIs, yIs]
    · cases s <;> cases t <;> rfl
    · rfl
    · rfl
    · exact isNaN_normalize _ _
  | subtract =>
    refine isNaN_ofUnpacked (u := UnpackedFloat.sub Format.binary64 x.toModel.unpack y.toModel.unpack) ?_
    rcases xCases with ⟨s, xIs, -⟩ | ⟨s, m, e, xPositive, xIs, -⟩ <;>
      rcases yCases with ⟨t, yIs, -⟩ | ⟨t, n, f, yPositive, yIs, -⟩ <;> rw [xIs, yIs]
    · cases s <;> cases t <;> rfl
    · rfl
    · rfl
    · exact isNaN_normalize _ _
  | multiply =>
    refine isNaN_ofUnpacked (u := UnpackedFloat.mul Format.binary64 x.toModel.unpack y.toModel.unpack) ?_
    rcases xCases with ⟨s, xIs, -⟩ | ⟨s, m, e, xPositive, xIs, -⟩ <;>
      rcases yCases with ⟨t, yIs, -⟩ | ⟨t, n, f, yPositive, yIs, -⟩ <;> rw [xIs, yIs]
    · rfl
    · rfl
    · rfl
    · exact isNaN_roundWithAccuracy _ _ _ _
  | divide =>
    show (if y == 0 then (0 : Float) else x / y).isNaN = false
    rcases yCases with ⟨t, yIs, -⟩ | ⟨t, n, f, yPositive, yIs, -⟩
    · rw [if_pos (beq_zero_of_unpack yIs)]
      decide +kernel
    · by_cases zero : (y == 0) = true
      · rw [if_pos zero]
        decide +kernel
      · rw [if_neg zero]
        refine isNaN_ofUnpacked
          (u := UnpackedFloat.div Format.binary64 x.toModel.unpack y.toModel.unpack) ?_
        rcases xCases with ⟨s, xIs, -⟩ | ⟨s, m, e, xPositive, xIs, -⟩ <;> rw [xIs, yIs]
        · rfl
        · exact isNaN_roundWithAccuracy _ _ _ _

theorem units_lt_of_magnitude_lt {x y : Float} (xFinite : (parts x).exponent ≠ 2047)
    (yFinite : (parts y).exponent ≠ 2047) (less : (parts x).magnitude < (parts y).magnitude) :
    units (parts x).significand (parts x).scale < units (parts y).significand (parts y).scale := by
  apply (inRange_parts xFinite).units_lt (inRange_parts yFinite)
  rw [compare_fields (fraction_lt x) (fraction_lt y), Nat.compare_eq_lt]
  exact less

/-- Finite numbers have the order of their values. -/
theorem level_le_iff {x y : Float} (xFinite : x.isFinite = true) (yFinite : y.isFinite = true) :
    level x ≤ level y ↔ inUnits x ≤ inUnits y := by
  rw [isFinite_eq, decide_eq_true_iff] at xFinite yFinite
  have forth := units_lt_of_magnitude_lt xFinite yFinite
  have back := units_lt_of_magnitude_lt yFinite xFinite
  have same : (parts x).magnitude = (parts y).magnitude →
      units (parts x).significand (parts x).scale = units (parts y).significand (parts y).scale := by
    intro magnitude
    have fields := compare_fields (fraction_lt x) (fraction_lt y)
    rw [magnitude, Std.ReflOrd.compare_self, Ordering.then_eq_eq] at fields
    rw [Std.LawfulEqOrd.eq_of_compare fields.1, Std.LawfulEqOrd.eq_of_compare fields.2]
  have nothing (p : Parts) : p.magnitude = 0 ↔ units p.significand p.scale = 0 := by
    rw [← significand_eq_zero_iff, units, Nat.mul_eq_zero]
    have power : 2 ^ (p.scale + 1074).toNat ≠ 0 := Nat.ne_of_gt (Nat.two_pow_pos _)
    exact ⟨.inl, fun either => either.resolve_right power⟩
  have xNothing := nothing (parts x)
  have yNothing := nothing (parts y)
  rw [level_eq, level_eq, inUnits, inUnits]
  cases (parts x).sign with
  | negative =>
    cases (parts y).sign with
    | negative =>
      simp only [Sign.apply]
      omega
    | positive =>
      simp only [Sign.apply]
      omega
  | positive =>
    cases (parts y).sign with
    | negative =>
      simp only [Sign.apply]
      omega
    | positive =>
      simp only [Sign.apply]
      omega

theorem le_iff_inUnits {x y : Float} (xFinite : x.isFinite = true) (yFinite : y.isFinite = true) :
    x ≤ y ↔ inUnits x ≤ inUnits y := by
  rw [le_iff (isNaN_of_isFinite xFinite) (isNaN_of_isFinite yFinite), level_le_iff xFinite yFinite]

end Rollup.Number.Binary64
