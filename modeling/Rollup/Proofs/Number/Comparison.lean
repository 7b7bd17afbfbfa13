import Rollup.Number.Order
import Rollup.Proofs.Number.Decoding

namespace Rollup.Number.Binary64
open Float.Model Float.Model.UnpackedFloat

/-- The bit pattern without the sign. -/
def Parts.magnitude (p : Parts) : Nat := p.exponent * 2 ^ 52 + p.fraction

/-- The bit pattern as a signed integer, which does not tell the two zeros apart. -/
def level (x : Float) : Int := (parts x).signed (parts x).magnitude

theorem fraction_lt (x : Float) : (parts x).fraction < 2 ^ 52 := Nat.mod_lt _ (Nat.two_pow_pos 52)

theorem exponent_lt (x : Float) : (parts x).exponent < 2048 := Nat.mod_lt _ (by decide)

theorem toBits_eq (x : Float) :
    x.toBits.toNat = (if (parts x).negative then 2 ^ 63 else 0) + (parts x).magnitude := by
  have bound : x.toBits.toNat < 2 ^ 64 := x.toBits.toNat_lt
  have magnitude : (parts x).magnitude =
      (x.toBits.toNat >>> 52) % 2048 * 2 ^ 52 + x.toBits.toNat % 2 ^ 52 := rfl
  have negative : (parts x).negative = (x.toBits.toNat >>> 63 == 1) := rfl
  rw [magnitude, negative, Nat.shiftRight_eq_div_pow, Nat.shiftRight_eq_div_pow]
  by_cases high : x.toBits.toNat / 2 ^ 63 = 1
  · rw [if_pos (beq_iff_eq.2 high)]
    omega
  · rw [if_neg (mt beq_iff_eq.1 high)]
    omega

theorem magnitude_lt (x : Float) : (parts x).magnitude < 2 ^ 63 := by
  have exponent := exponent_lt x
  have fraction := fraction_lt x
  rw [Parts.magnitude]
  omega

theorem place_eq (x : Float) :
    Order.place x = if (parts x).negative then level x - 1 else level x := by
  have bits := toBits_eq x
  have bound := magnitude_lt x
  have half : (1 <<< 63 : Nat) = 2 ^ 63 := rfl
  unfold Order.place level Parts.signed
  simp only [half]
  by_cases negative : (parts x).negative = true
  · rw [if_pos negative] at bits
    have high : ¬x.toBits.toNat < 2 ^ 63 := by omega
    rw [if_neg high, if_pos negative, if_pos negative, bits]
    omega
  · rw [if_neg negative] at bits
    have low : x.toBits.toNat < 2 ^ 63 := by omega
    rw [if_pos low, if_neg negative, if_neg negative, bits]
    omega

/-- Scales and then significands compare like the bit patterns. -/
theorem compare_fields {p q : Parts} (pBound : p.fraction < 2 ^ 52) (qBound : q.fraction < 2 ^ 52) :
    (compare p.scale q.scale).then (compare p.significand q.significand) =
      compare p.magnitude q.magnitude := by
  have less {p q : Parts} (pBound : p.fraction < 2 ^ 52) (qBound : q.fraction < 2 ^ 52)
      (before : p.magnitude < q.magnitude) :
      (compare p.scale q.scale).then (compare p.significand q.significand) = .lt := by
    rw [Ordering.then_eq_lt, Int.compare_eq_lt, Std.LawfulEqOrd.compare_eq_iff_eq, Nat.compare_eq_lt]
    have unit : (1 <<< 52 : Nat) = 2 ^ 52 := rfl
    simp only [Parts.magnitude] at before
    simp only [Parts.scale, Parts.significand, unit]
    by_cases pLow : p.exponent = 0
    · by_cases qLow : q.exponent = 0
      · rw [if_pos pLow, if_pos qLow]
        omega
      · rw [if_pos pLow, if_neg qLow]
        omega
    · have qHigh : q.exponent ≠ 0 := by omega
      rw [if_neg pLow, if_neg qHigh]
      omega
  rcases Nat.lt_trichotomy p.magnitude q.magnitude with before | same | after
  · rw [less pBound qBound before, Nat.compare_eq_lt.2 before]
  · have exponent : p.exponent = q.exponent := by
      simp only [Parts.magnitude] at same
      omega
    have fraction : p.fraction = q.fraction := by
      simp only [Parts.magnitude] at same
      omega
    rw [Parts.scale, Parts.scale, Parts.significand, Parts.significand, Parts.magnitude, Parts.magnitude,
      exponent, fraction]
    simp [Std.ReflOrd.compare_self]
  · have swapped := congrArg Ordering.swap (less qBound pBound after)
    rw [Ordering.swap_then, ← Std.OrientedOrd.eq_swap, ← Std.OrientedOrd.eq_swap] at swapped
    rw [swapped, Nat.compare_eq_gt.2 after]
    rfl

theorem significand_eq_zero_iff (p : Parts) : p.significand = 0 ↔ p.magnitude = 0 := by
  have unit : (1 <<< 52 : Nat) = 2 ^ 52 := rfl
  rw [Parts.significand, Parts.magnitude, unit]
  by_cases low : p.exponent = 0
  · rw [if_pos low, low]
    omega
  · rw [if_neg low]
    omega

/-- The sign and the magnitude of a number that is infinite, a zero or in between. -/
theorem unpack_cases {x : Float} (number : x.isNaN = false) :
    (x.toModel.unpack = .infinity (parts x).sign ∧ (parts x).magnitude = 2047 * 2 ^ 52) ∨
      (x.toModel.unpack = .zero (parts x).sign ∧ (parts x).magnitude = 0) ∨
      ∃ positive, x.toModel.unpack =
          .finite (parts x).sign (parts x).significand (parts x).scale positive ∧
        0 < (parts x).magnitude ∧ (parts x).magnitude < 2047 * 2 ^ 52 := by
  have exponent := exponent_lt x
  have fraction := fraction_lt x
  rw [isNaN_eq, decide_eq_false_iff_not, not_and] at number
  rw [unpack_eq]
  by_cases special : (parts x).exponent = 2047
  · left
    have empty : (parts x).fraction = 0 := Decidable.not_not.1 (number special)
    rw [if_pos special, if_pos empty, Parts.magnitude, special, empty]
    exact ⟨rfl, rfl⟩
  · right
    have below : (parts x).magnitude < 2047 * 2 ^ 52 := by
      rw [Parts.magnitude]
      omega
    rw [if_neg special]
    by_cases zero : (parts x).significand = 0
    · left
      rw [dif_pos zero]
      exact ⟨rfl, (significand_eq_zero_iff _).1 zero⟩
    · right
      rw [dif_neg zero]
      have nonzero : (parts x).magnitude ≠ 0 := mt (significand_eq_zero_iff _).2 zero
      exact ⟨Nat.pos_of_ne_zero zero, rfl, Nat.pos_of_ne_zero nonzero, below⟩

theorem level_eq (x : Float) : level x = (parts x).sign.apply (parts x).magnitude := by
  unfold level Parts.signed Parts.sign
  by_cases negative : (parts x).negative = true
  · rw [if_pos negative, if_pos negative]
    rfl
  · rw [if_neg negative, if_neg negative]
    rfl

theorem compare_neg_neg (a b : Nat) : compare (-(a : Int)) (-(b : Int)) = (compare a b).swap := by
  rcases Nat.lt_trichotomy a b with before | same | after
  · rw [Nat.compare_eq_lt.2 before, Int.compare_eq_gt.2 (by omega)]
    rfl
  · rw [same]
    simp [Std.ReflOrd.compare_self]
  · rw [Nat.compare_eq_gt.2 after, Int.compare_eq_lt.2 (by omega)]
    rfl

theorem compare_cast_cast (a b : Nat) : compare (a : Int) (b : Int) = compare a b := by
  rcases Nat.lt_trichotomy a b with before | same | after
  · rw [Nat.compare_eq_lt.2 before, Int.compare_eq_lt.2 (by omega)]
  · rw [same]
    simp [Std.ReflOrd.compare_self]
  · rw [Nat.compare_eq_gt.2 after, Int.compare_eq_gt.2 (by omega)]

/-- Signs and magnitudes compare like the integers they stand for. -/
theorem compare_apply (s t : Sign) (a b : Nat) :
    compare (s.apply a) (t.apply b) =
      match s, t with
      | .positive, .positive => compare a b
      | .negative, .negative => (compare a b).swap
      | .positive, .negative => if a = 0 ∧ b = 0 then .eq else .gt
      | .negative, .positive => if a = 0 ∧ b = 0 then .eq else .lt := by
  cases s with
  | positive =>
    cases t with
    | positive => exact compare_cast_cast a b
    | negative =>
      show compare (a : Int) (-(b : Int)) = if a = 0 ∧ b = 0 then .eq else .gt
      by_cases zeros : a = 0 ∧ b = 0
      · rw [if_pos zeros, zeros.1, zeros.2]
        rfl
      · rw [if_neg zeros, Int.compare_eq_gt]
        omega
  | negative =>
    cases t with
    | positive =>
      show compare (-(a : Int)) (b : Int) = if a = 0 ∧ b = 0 then .eq else .lt
      by_cases zeros : a = 0 ∧ b = 0
      · rw [if_pos zeros, zeros.1, zeros.2]
        rfl
      · rw [if_neg zeros, Int.compare_eq_lt]
        omega
    | negative => exact compare_neg_neg a b

/-- Numbers compare like their levels. -/
theorem compare_eq {x y : Float} (xNumber : x.isNaN = false) (yNumber : y.isNaN = false) :
    x.toModel.unpack.compare y.toModel.unpack = some (compare (level x) (level y)) := by
  have fields := compare_fields (fraction_lt x) (fraction_lt y)
  rw [level_eq, level_eq, compare_apply]
  rcases unpack_cases xNumber with ⟨xIs, xTop⟩ | ⟨xIs, xZero⟩ | ⟨xPositive, xIs, xLow, xHigh⟩
  · rcases unpack_cases yNumber with ⟨yIs, yTop⟩ | ⟨yIs, yZero⟩ | ⟨yPositive, yIs, yLow, yHigh⟩
    · rw [xIs, yIs, xTop, yTop]
      cases (parts x).sign <;> cases (parts y).sign <;> rfl
    · rw [xIs, yIs, xTop, yZero]
      cases (parts x).sign <;> cases (parts y).sign <;> rfl
    · have after := Nat.compare_eq_gt.2 yHigh
      have nonzero : ¬(2047 * 2 ^ 52 = 0 ∧ (parts y).magnitude = 0) := by omega
      rw [xIs, yIs, xTop, after, if_neg nonzero, if_neg nonzero]
      cases (parts x).sign <;> cases (parts y).sign <;> rfl
  · rcases unpack_cases yNumber with ⟨yIs, yTop⟩ | ⟨yIs, yZero⟩ | ⟨yPositive, yIs, yLow, yHigh⟩
    · rw [xIs, yIs, xZero, yTop]
      cases (parts x).sign <;> cases (parts y).sign <;> rfl
    · rw [xIs, yIs, xZero, yZero]
      cases (parts x).sign <;> cases (parts y).sign <;> rfl
    · have before := Nat.compare_eq_lt.2 yLow
      have nonzero : ¬(0 = 0 ∧ (parts y).magnitude = 0) := by omega
      rw [xIs, yIs, xZero, before, if_neg nonzero, if_neg nonzero]
      cases (parts x).sign <;> cases (parts y).sign <;> rfl
  · rcases unpack_cases yNumber with ⟨yIs, yTop⟩ | ⟨yIs, yZero⟩ | ⟨yPositive, yIs, yLow, yHigh⟩
    · have before := Nat.compare_eq_lt.2 xHigh
      have nonzero : ¬((parts x).magnitude = 0 ∧ 2047 * 2 ^ 52 = 0) := by omega
      rw [xIs, yIs, yTop, before, if_neg nonzero, if_neg nonzero]
      cases (parts x).sign <;> cases (parts y).sign <;> rfl
    · have after := Nat.compare_eq_gt.2 xLow
      have nonzero : ¬((parts x).magnitude = 0 ∧ 0 = 0) := by omega
      rw [xIs, yIs, yZero, after, if_neg nonzero, if_neg nonzero]
      cases (parts x).sign <;> cases (parts y).sign <;> rfl
    · have nonzero : ¬((parts x).magnitude = 0 ∧ (parts y).magnitude = 0) := by omega
      rw [xIs, yIs, ← fields, if_neg nonzero, if_neg nonzero]
      cases (parts x).sign <;> cases (parts y).sign <;> rfl

theorem le_iff {x y : Float} (xNumber : x.isNaN = false) (yNumber : y.isNaN = false) :
    x ≤ y ↔ level x ≤ level y := by
  have model : x ≤ y ↔ (x.toModel.unpack.compare y.toModel.unpack).any (·.isLE) = true :=
    decide_eq_true_iff
  rw [model, compare_eq xNumber yNumber, Option.any_some, Int.isLE_compare]

theorem lt_iff {x y : Float} (xNumber : x.isNaN = false) (yNumber : y.isNaN = false) :
    x < y ↔ level x < level y := by
  have model : x < y ↔ (x.toModel.unpack.compare y.toModel.unpack == some .lt) = true :=
    decide_eq_true_iff
  rw [model, compare_eq xNumber yNumber, beq_iff_eq, Option.some.injEq, Int.compare_eq_lt]

theorem isNaN_of_lt {x y : Float} (h : x < y) : x.isNaN = false ∧ y.isNaN = false := by
  have model : (x.toModel.unpack.compare y.toModel.unpack == some .lt) = true := decide_eq_true_iff.1 h
  rw [beq_iff_eq] at model
  show x.toModel.unpack.isNaN = false ∧ y.toModel.unpack.isNaN = false
  cases xIs : x.toModel.unpack <;> cases yIs : y.toModel.unpack <;> rw [xIs, yIs] at model <;>
    first | exact ⟨rfl, rfl⟩ | cases model

theorem isNaN_of_le {x y : Float} (h : x ≤ y) : x.isNaN = false ∧ y.isNaN = false := by
  have model : (x.toModel.unpack.compare y.toModel.unpack).any (·.isLE) = true := decide_eq_true_iff.1 h
  show x.toModel.unpack.isNaN = false ∧ y.toModel.unpack.isNaN = false
  cases xIs : x.toModel.unpack <;> cases yIs : y.toModel.unpack <;> rw [xIs, yIs] at model <;>
    first | exact ⟨rfl, rfl⟩ | cases model

/-- The fields of a finite number are in range. -/
theorem float_le_trans {x y z : Float} (first : x ≤ y) (second : y ≤ z) : x ≤ z := by
  obtain ⟨xNumber, yNumber⟩ := isNaN_of_le first
  have zNumber := (isNaN_of_le second).2
  rw [le_iff xNumber yNumber] at first
  rw [le_iff yNumber zNumber] at second
  rw [le_iff xNumber zNumber]
  exact Int.le_trans first second

theorem inRange_parts {x : Float} (finite : (parts x).exponent ≠ 2047) :
    InRange (parts x).significand (parts x).scale := by
  have exponent := exponent_lt x
  have fraction := fraction_lt x
  have unit : (1 <<< 52 : Nat) = 2 ^ 52 := rfl
  by_cases low : (parts x).exponent = 0
  · have significand : (parts x).significand = (parts x).fraction := if_pos low
    have scale : (parts x).scale = -1074 := by
      rw [Parts.scale, low]
      rfl
    rw [significand, scale]
    exact ⟨by omega, .inr rfl, by omega, by omega⟩
  · have significand : (parts x).significand = (parts x).fraction + 2 ^ 52 := if_neg low
    have scale : (parts x).scale = (parts x).exponent - 1075 := by
      rw [Parts.scale, Nat.max_eq_left (by omega)]
    rw [significand, scale]
    exact ⟨by omega, .inl (by omega), by omega, by omega⟩

theorem magnitude_eq_of_fields {x y : Float} (scale : (parts x).scale = (parts y).scale)
    (significand : (parts x).significand = (parts y).significand) :
    (parts x).magnitude = (parts y).magnitude := by
  have fields := compare_fields (fraction_lt x) (fraction_lt y)
  rw [scale, significand, Std.ReflOrd.compare_self, Std.ReflOrd.compare_self] at fields
  exact Std.LawfulEqOrd.eq_of_compare fields.symm

theorem isNaN_neg {x : Float} (number : x.isNaN = false) : (-x).isNaN = false := by
  refine isNaN_ofUnpacked (u := x.toModel.unpack.neg) ?_
  have unpacked : x.toModel.unpack.isNaN = false := number
  cases u : x.toModel.unpack with
  | notANumber =>
    rw [u] at unpacked
    cases unpacked
  | infinity s => rfl
  | zero s => rfl
  | finite s m e positive => rfl

/-- Negation changes the sign only. -/
theorem parts_neg {x : Float} (number : x.isNaN = false) :
    (parts (-x)).sign = -(parts x).sign ∧ (parts (-x)).magnitude = (parts x).magnitude := by
  have unpacked : -x = ofUnpacked x.toModel.unpack.neg := rfl
  have bit (s : Sign) (exponent fraction : Nat) :
      (Parts.mk (s.toBitVec.toNat == 1) exponent fraction).sign = s := by
    cases s with
    | negative => rfl
    | positive => rfl
  rw [unpacked]
  rcases unpack_cases number with ⟨u, top⟩ | ⟨u, zero⟩ | ⟨positive, u, -, below⟩
  · have negated : x.toModel.unpack.neg = .infinity (-(parts x).sign) := by
      rw [u]
      rfl
    rw [negated, parts_infinity]
    refine ⟨bit _ _ _, ?_⟩
    rw [top]
    simp only [Parts.magnitude, Nat.add_zero]
  · have negated : x.toModel.unpack.neg = .zero (-(parts x).sign) := by
      rw [u]
      rfl
    rw [negated, parts_zero]
    refine ⟨bit _ _ _, ?_⟩
    rw [zero]
    simp only [Parts.magnitude, Nat.zero_mul, Nat.add_zero]
  · have finite : (parts x).exponent ≠ 2047 := by
      intro special
      rw [Parts.magnitude, special] at below
      omega
    have negated : x.toModel.unpack.neg =
        .finite (-(parts x).sign) (parts x).significand (parts x).scale positive := by
      rw [u]
      rfl
    rw [negated]
    obtain ⟨-, significand, scale, sign⟩ := (inRange_parts finite).parts_finite (-(parts x).sign) positive
    exact ⟨sign, magnitude_eq_of_fields scale significand⟩

theorem level_neg {x : Float} (number : x.isNaN = false) : level (-x) = -level x := by
  obtain ⟨sign, magnitude⟩ := parts_neg number
  rw [level_eq, level_eq, sign, magnitude]
  cases (parts x).sign with
  | negative => exact (Int.neg_neg _).symm
  | positive => rfl

/-- Numbers with the same place among the bit patterns are the same. -/
theorem eq_of_level {x y : Float} (same : level x = level y)
    (sign : (parts x).negative = (parts y).negative) : x = y := by
  have xBits := toBits_eq x
  have yBits := toBits_eq y
  rw [level, level, Parts.signed, Parts.signed, sign] at same
  have magnitude : (parts x).magnitude = (parts y).magnitude := by
    by_cases negative : (parts y).negative = true
    · rw [if_pos negative, if_pos negative] at same
      omega
    · rw [if_neg negative, if_neg negative] at same
      omega
  rw [sign, magnitude, ← yBits] at xBits
  have bits : x.toBits = y.toBits := UInt64.toNat_inj.1 xBits
  obtain ⟨⟨b, valid⟩⟩ := x
  obtain ⟨⟨c, valid'⟩⟩ := y
  have patterns : b = c := bits
  subst patterns
  rfl

theorem eq_zero_iff (x : Float) : x = 0 ↔ level x = 0 ∧ (parts x).negative = false := by
  have zero : level 0 = 0 ∧ (parts 0).negative = false := by decide +kernel
  constructor
  · intro same
    rw [same]
    exact zero
  · intro h
    exact eq_of_level (h.1.trans zero.1.symm) (h.2.trans zero.2.symm)

theorem eq_neg_zero_iff (x : Float) : x = -0 ↔ level x = 0 ∧ (parts x).negative = true := by
  have zero : level (-0) = 0 ∧ (parts (-0)).negative = true := by decide +kernel
  constructor
  · intro same
    rw [same]
    exact zero
  · intro h
    exact eq_of_level (h.1.trans zero.1.symm) (h.2.trans zero.2.symm)

theorem isNaN_of_beq {x y : Float} (h : (x == y) = true) : x.isNaN = false ∧ y.isNaN = false := by
  have model : (x.toModel.unpack.compare y.toModel.unpack == some .eq) = true := h
  rw [beq_iff_eq] at model
  show x.toModel.unpack.isNaN = false ∧ y.toModel.unpack.isNaN = false
  cases xIs : x.toModel.unpack <;> cases yIs : y.toModel.unpack <;> rw [xIs, yIs] at model <;>
    first | exact ⟨rfl, rfl⟩ | cases model

/-- Equal numbers are the same, or both are zeros. -/
theorem eq_or_zero_of_beq {x y : Float} (h : (x == y) = true) :
    x = y ∨ (x = 0 ∨ x = -0) ∧ (y = 0 ∨ y = -0) := by
  obtain ⟨xNumber, yNumber⟩ := isNaN_of_beq h
  have model : (x.toModel.unpack.compare y.toModel.unpack == some .eq) = true := h
  rw [compare_eq xNumber yNumber, beq_iff_eq, Option.some.injEq, Int.compare_eq_eq] at model
  by_cases sign : (parts x).negative = (parts y).negative
  · exact .inl (eq_of_level model sign)
  · right
    have zero : level x = 0 ∧ level y = 0 := by
      rw [level, level, Parts.signed, Parts.signed] at model ⊢
      cases xSign : (parts x).negative <;> cases ySign : (parts y).negative <;>
        simp [xSign, ySign] at sign model ⊢ <;> omega
    simp only [eq_zero_iff, eq_neg_zero_iff, zero, true_and]
    exact ⟨(Bool.eq_false_or_eq_true _).symm, (Bool.eq_false_or_eq_true _).symm⟩

/-- Among numbers the ranking order is that of the values. -/
theorem rankLe_iff {x y : Float} (xNumber : x.isNaN = false) (yNumber : y.isNaN = false) :
    Order.rankLe x y = true ↔ level x ≤ level y := by
  rw [Order.rankLe, xNumber, yNumber, ← le_iff xNumber yNumber]
  exact decide_eq_true_iff

/-- The two zeros tie. -/
theorem rankLe_zeros : Order.rankLe 0 (-0) = true ∧ Order.rankLe (-0) 0 = true := by
  decide +kernel

/-- NaN comes after everything. -/
theorem rankLe_of_isNaN (x : Float) {y : Float} (undefined : y.isNaN = true) : Order.rankLe x y = true := by
  rw [Order.rankLe, undefined, Bool.true_or]

theorem rankLe_total (x y : Float) : (Order.rankLe x y || Order.rankLe y x) = true := by
  cases xNumber : x.isNaN with
  | true => rw [rankLe_of_isNaN y xNumber, Bool.or_true]
  | false =>
    cases yNumber : y.isNaN with
    | true => rw [rankLe_of_isNaN x yNumber, Bool.true_or]
    | false =>
      rw [Bool.or_eq_true, rankLe_iff xNumber yNumber, rankLe_iff yNumber xNumber]
      omega

theorem rankLe_trans (x y z : Float) (first : Order.rankLe x y) (second : Order.rankLe y z) :
    Order.rankLe x z := by
  cases zNumber : z.isNaN with
  | true => exact rankLe_of_isNaN x zNumber
  | false =>
    have yNumber : y.isNaN = false := by
      rw [Order.rankLe, zNumber, Bool.false_or, Bool.and_eq_true, Bool.not_eq_true'] at second
      exact second.1
    have xNumber : x.isNaN = false := by
      rw [Order.rankLe, yNumber, Bool.false_or, Bool.and_eq_true, Bool.not_eq_true'] at first
      exact first.1
    rw [rankLe_iff xNumber yNumber] at first
    rw [rankLe_iff yNumber zNumber] at second
    rw [rankLe_iff xNumber zNumber]
    omega

@[simp] theorem isNaN_neg_eq (x : Float) : (-x).isNaN = x.isNaN := by
  cases number : x.isNaN with
  | false => exact isNaN_neg number
  | true =>
    have negated : -x = ofUnpacked x.toModel.unpack.neg := rfl
    have unpacked : x.toModel.unpack.isNaN = true := number
    rw [negated]
    cases u : x.toModel.unpack with
    | notANumber => decide +kernel
    | infinity s =>
      rw [u] at unpacked
      cases unpacked
    | zero s =>
      rw [u] at unpacked
      cases unpacked
    | finite s m e positive =>
      rw [u] at unpacked
      cases unpacked

/-- The ranking order by the order of numbers. -/
theorem rankLe_eq (x y : Float) : Order.rankLe x y = (y.isNaN || (!x.isNaN && x ≤ y)) := rfl

/-- Negation turns the ranking order around, except that NaN stays behind everything. -/
theorem rankLe_neg (x y : Float) : Order.rankLe (-x) (-y) = (y.isNaN || (!x.isNaN && y ≤ x)) := by
  rw [Order.rankLe, isNaN_neg_eq, isNaN_neg_eq]
  cases xNumber : x.isNaN with
  | true => rfl
  | false =>
    cases yNumber : y.isNaN with
    | true => rfl
    | false =>
      have turned : -x ≤ -y ↔ y ≤ x := by
        rw [le_iff (isNaN_neg xNumber) (isNaN_neg yNumber), le_iff yNumber xNumber, level_neg xNumber,
          level_neg yNumber]
        omega
      simp [turned]

/-- The two orders differ on zeros only: zero is no greater than negative zero but placed behind it. -/
theorem totalLe_iff (x y : Float) :
    Order.totalLe x y = true ↔ level x ≤ level y ∧ ¬(x = 0 ∧ y = -0) := by
  have places : Order.totalLe x y = true ↔ Order.place x ≤ Order.place y := decide_eq_true_iff
  have xMagnitude : level x = (parts x).signed (parts x).magnitude := rfl
  have yMagnitude : level y = (parts y).signed (parts y).magnitude := rfl
  unfold Parts.signed at xMagnitude yMagnitude
  rw [places, place_eq, place_eq, eq_zero_iff, eq_neg_zero_iff]
  cases xNegative : (parts x).negative with
  | true =>
    rw [xNegative, if_pos rfl] at xMagnitude
    cases yNegative : (parts y).negative with
    | true =>
      rw [yNegative, if_pos rfl] at yMagnitude
      simp
    | false =>
      rw [yNegative, if_neg Bool.false_ne_true] at yMagnitude
      simp
      omega
  | false =>
    rw [xNegative, if_neg Bool.false_ne_true] at xMagnitude
    cases yNegative : (parts y).negative with
    | true =>
      rw [yNegative, if_pos rfl] at yMagnitude
      simp
      omega
    | false =>
      rw [yNegative, if_neg Bool.false_ne_true] at yMagnitude
      simp

end Rollup.Number.Binary64
