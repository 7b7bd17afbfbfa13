import Mathlib.Algebra.Group.Int.Defs
import Mathlib.Algebra.Group.Nat.Defs
import Rollup.Number.Binary64

namespace Rollup.Number.Binary64
open Float.Model Float.Model.UnpackedFloat

def Parts.sign (p : Parts) : Sign := if p.negative then .negative else .positive

section Fields
variable (b : BitVec Format.binary64.numBits)

theorem toNat_unpackExponent : (@unpackExponent Format.binary64 b).toNat = (b.toNat >>> 52) % 2048 := by
  simp [unpackExponent]

theorem toNat_unpackMantissa : (@unpackMantissa Format.binary64 b).toNat = b.toNat % (1 <<< 52) := by
  simp [unpackMantissa]

theorem toNat_unpackSign : (@unpackSign Format.binary64 b).toNat = b.toNat >>> 63 := by
  have bound : b.toNat < 2 ^ 64 := b.isLt
  have high : b.toNat >>> 63 < 2 := by
    rw [Nat.shiftRight_eq_div_pow]
    omega
  have bit : (@unpackSign Format.binary64 b).toNat = b.toNat >>> 63 % 2 := BitVec.extractLsb'_toNat 63 1 b
  rw [bit, Nat.mod_eq_of_lt high]

end Fields

theorem ofBitVec_eq (v : BitVec 1) :
    Sign.ofBitVec v = if v.toNat == 1 then .negative else .positive := by
  rcases BitVec.eq_zero_or_eq_one v with zero | one
  · rw [zero]
    rfl
  · rw [one]
    rfl

theorem finite_congr {s t : Sign} {m n : Nat} {e f : Int} (sign : s = t) (significand : m = n)
    (scale : e = f) (positive : 0 < m) (positive' : 0 < n) :
    UnpackedFloat.finite s m e positive = .finite t n f positive' := by
  subst sign significand scale
  rfl

/-- The fields decide whether a number is infinite, not a number, a zero, or a significand times two to
its scale. -/
theorem unpack_eq (x : Float) :
    x.toModel.unpack =
      if (parts x).exponent = 2047 then
        if (parts x).fraction = 0 then .infinity (parts x).sign else .notANumber
      else if h : (parts x).significand = 0 then .zero (parts x).sign
      else .finite (parts x).sign (parts x).significand (parts x).scale (Nat.pos_of_ne_zero h) := by
  let b : BitVec Format.binary64.numBits := x.toModel.toBits.toBitVec
  have exponent : (parts x).exponent = (@unpackExponent Format.binary64 b).toNat :=
    (toNat_unpackExponent b).symm
  have fraction : (parts x).fraction = (@unpackMantissa Format.binary64 b).toNat :=
    (toNat_unpackMantissa b).symm
  have sign : (parts x).sign = Sign.ofBitVec (@unpackSign Format.binary64 b) := by
    have bit : (parts x).negative = ((@unpackSign Format.binary64 b).toNat == 1) := by
      rw [toNat_unpackSign]
      rfl
    rw [Parts.sign, bit, ofBitVec_eq]
  show UnpackedFloat.unpack Format.binary64 b = _
  have top : @unpackExponent Format.binary64 b = -1#_ ↔ (parts x).exponent = 2047 := by
    rw [exponent, ← BitVec.toNat_inj]
    rfl
  have bottom : @unpackExponent Format.binary64 b = 0#_ ↔ (parts x).exponent = 0 := by
    rw [exponent, ← BitVec.toNat_inj]
    rfl
  have empty : @unpackMantissa Format.binary64 b = 0#_ ↔ (parts x).fraction = 0 := by
    rw [fraction, ← BitVec.toNat_inj]
    rfl
  have implicit : (1#1 ++ @unpackMantissa Format.binary64 b).toNat = (parts x).fraction + 2 ^ 52 := by
    have bound : (@unpackMantissa Format.binary64 b).toNat < 2 ^ 52 := BitVec.isLt _
    rw [BitVec.toNat_append, ← Nat.shiftLeft_add_eq_or_of_lt bound, fraction]
    exact Nat.add_comm _ _
  unfold UnpackedFloat.unpack
  dsimp only
  rw [← sign]
  by_cases special : (parts x).exponent = 2047
  · rw [if_pos (top.2 special), if_pos special]
    by_cases nothing : (parts x).fraction = 0
    · rw [if_pos (empty.2 nothing), if_pos nothing]
    · rw [if_neg (mt empty.1 nothing), if_neg nothing]
  · rw [if_neg (mt top.1 special), if_neg special]
    by_cases low : (parts x).exponent = 0
    · have significand : (parts x).significand = (parts x).fraction := if_pos low
      have scale : (parts x).scale = -1074 := by
        rw [Parts.scale, low]
        rfl
      rw [if_pos (bottom.2 low)]
      by_cases nothing : (parts x).fraction = 0
      · have zero : (parts x).significand = 0 := significand.trans nothing
        rw [dif_pos (empty.2 nothing), dif_pos zero]
      · have positive : (parts x).significand ≠ 0 := by
          rw [significand]
          exact nothing
        rw [dif_neg (mt empty.1 nothing), dif_neg positive]
        apply finite_congr rfl
        · exact fraction.symm.trans significand.symm
        · rw [scale, ← exponent, low]
          rfl
    · have significand : (parts x).significand = (parts x).fraction + 2 ^ 52 := if_neg low
      have positive : (parts x).significand ≠ 0 := by
        rw [significand]
        omega
      rw [if_neg (mt bottom.1 low), dif_neg positive]
      apply finite_congr rfl
      · exact implicit.trans significand.symm
      · rw [Parts.scale, ← exponent]
        have bias : (Format.binary64.exponentBias : Int) + Format.binary64.mantissaBitsWithoutImplicit =
            1075 := rfl
        rw [bias, Nat.max_eq_left (by omega)]

theorem isNaN_eq (x : Float) :
    x.isNaN = decide ((parts x).exponent = 2047 ∧ (parts x).fraction ≠ 0) := by
  show x.toModel.unpack.isNaN = _
  rw [unpack_eq]
  by_cases special : (parts x).exponent = 2047
  · by_cases nothing : (parts x).fraction = 0
    · rw [if_pos special, if_pos nothing]
      show false = _
      simp [special, nothing]
    · rw [if_pos special, if_neg nothing]
      show true = _
      simp [special, nothing]
  · by_cases zero : (parts x).significand = 0
    · rw [if_neg special, dif_pos zero]
      show false = _
      simp [special]
    · rw [if_neg special, dif_neg zero]
      show false = _
      simp [special]

theorem isFinite_eq (x : Float) : x.isFinite = decide ((parts x).exponent ≠ 2047) := by
  show x.toModel.unpack.isFinite = _
  rw [unpack_eq]
  by_cases special : (parts x).exponent = 2047
  · by_cases nothing : (parts x).fraction = 0
    · rw [if_pos special, if_pos nothing]
      show false = _
      simp [special]
    · rw [if_pos special, if_neg nothing]
      show false = _
      simp [special]
  · by_cases zero : (parts x).significand = 0
    · rw [if_neg special, dif_pos zero]
      show true = _
      simp [special]
    · rw [if_neg special, dif_neg zero]
      show true = _
      simp [special]

/-- A significand and a scale as the fields of a number have them: the significand is as long as it can
be, or the scale is the least one. -/
structure InRange (m : Nat) (e : Int) : Prop where
  short : m < 2 ^ 53
  full : 2 ^ 52 ≤ m ∨ e = -1074
  least : -1074 ≤ e
  greatest : e ≤ 971

theorem toNat_packComponents (s : Sign) (e : BitVec 11) (m : BitVec 52) :
    (packComponents Format.binary64 s e m).toNat =
      s.toBitVec.toNat * 2 ^ 63 + e.toNat * 2 ^ 52 + m.toNat := by
  have exponentBound : e.toNat < 2 ^ 11 := e.isLt
  have mantissaBound : m.toNat < 2 ^ 52 := m.isLt
  show (s.toBitVec ++ e ++ m).toNat = _
  rw [BitVec.toNat_append, BitVec.toNat_append, ← Nat.shiftLeft_add_eq_or_of_lt exponentBound,
    ← Nat.shiftLeft_add_eq_or_of_lt mantissaBound, Nat.shiftLeft_eq, Nat.shiftLeft_eq]
  omega

/-- The number that a class and its fields stand for. -/
def ofUnpacked (u : UnpackedFloat) : Float := .ofModel (Float.Model.pack u)

theorem parts_of_components {x : Float} {s : Sign} {e : BitVec 11} {m : BitVec 52}
    (bits : x.toBits.toBitVec = packComponents Format.binary64 s e m) :
    parts x = ⟨s.toBitVec.toNat == 1, e.toNat, m.toNat⟩ := by
  have exponentBound : e.toNat < 2 ^ 11 := e.isLt
  have mantissaBound : m.toNat < 2 ^ 52 := m.isLt
  have signBound : s.toBitVec.toNat < 2 := s.toBitVec.isLt
  have value : x.toBits.toNat = s.toBitVec.toNat * 2 ^ 63 + e.toNat * 2 ^ 52 + m.toNat := by
    rw [← toNat_packComponents, ← bits]
    rfl
  have high : x.toBits.toNat >>> 63 = s.toBitVec.toNat := by
    rw [value, Nat.shiftRight_eq_div_pow]
    omega
  have middle : (x.toBits.toNat >>> 52) % 2048 = e.toNat := by
    rw [value, Nat.shiftRight_eq_div_pow]
    omega
  have low : x.toBits.toNat % (1 <<< 52) = m.toNat := by
    show x.toBits.toNat % 2 ^ 52 = m.toNat
    omega
  rw [parts]
  simp only [high, middle, low]

theorem parts_zero (s : Sign) : parts (ofUnpacked (.zero s)) = ⟨s.toBitVec.toNat == 1, 0, 0⟩ :=
  parts_of_components (s := s) (e := 0#11) (m := 0#52) rfl

theorem parts_infinity (s : Sign) :
    parts (ofUnpacked (.infinity s)) = ⟨s.toBitVec.toNat == 1, 2047, 0⟩ :=
  parts_of_components (s := s) (e := -1#11) (m := 0#52) rfl

/-- The fields of a number that was put together: overflow gives infinity, and a significand of full
length loses its leading bit. -/
theorem parts_finite (s : Sign) (m : Nat) (e : Int) (positive : 0 < m) :
    parts (ofUnpacked (.finite s m e positive)) =
      if 2048 ≤ (e + 1075).toNat + 1 then ⟨s.toBitVec.toNat == 1, 2047, 0⟩
      else if m.log2 = 52 then ⟨s.toBitVec.toNat == 1, (e + 1075).toNat, m % 2 ^ 52⟩
      else ⟨s.toBitVec.toNat == 1, 0, m % 2 ^ 52⟩ := by
  have biased : (e + (Format.binary64.exponentBias : Int) +
      (Format.binary64.mantissaBitsWithoutImplicit : Int)).toNat = (e + 1075).toNat := by
    have bias : (Format.binary64.exponentBias : Int) +
        (Format.binary64.mantissaBitsWithoutImplicit : Int) = 1075 := rfl
    rw [Int.add_assoc, bias]
  have length : m.log2 + 1 = Format.binary64.mantissaBits ↔ m.log2 = 52 := by
    have bits : Format.binary64.mantissaBits = 53 := rfl
    omega
  have packed : (ofUnpacked (.finite s m e positive)).toBits.toBitVec =
      if 2048 ≤ (e + 1075).toNat + 1 then packComponents Format.binary64 s (-1#_) 0
      else if m.log2 = 52 then
        packComponents Format.binary64 s (BitVec.ofNat _ (e + 1075).toNat) (BitVec.ofNat _ m)
      else packComponents Format.binary64 s 0#_ (BitVec.ofNat _ m) := by
    show UnpackedFloat.pack Format.binary64 (.finite s m e positive) = _
    unfold UnpackedFloat.pack
    simp only [biased, length]
    rfl
  by_cases overflow : 2048 ≤ (e + 1075).toNat + 1
  · rw [if_pos overflow] at packed ⊢
    exact parts_of_components packed
  · rw [if_neg overflow] at packed ⊢
    by_cases full : m.log2 = 52
    · rw [if_pos full] at packed ⊢
      have exponent : (BitVec.ofNat 11 (e + 1075).toNat).toNat = (e + 1075).toNat := by
        rw [BitVec.toNat_ofNat]
        exact Nat.mod_eq_of_lt (by omega)
      rw [parts_of_components packed, exponent, BitVec.toNat_ofNat]
    · rw [if_neg full] at packed ⊢
      rw [parts_of_components packed, BitVec.toNat_ofNat]
      rfl

theorem InRange.log2_eq_iff {m : Nat} {e : Int} (range : InRange m e) (positive : 0 < m) :
    m.log2 = 52 ↔ 2 ^ 52 ≤ m := by
  have nonzero : m ≠ 0 := Nat.ne_of_gt positive
  have short : m.log2 < 53 := (Nat.log2_lt nonzero).2 range.short
  have full : 52 ≤ m.log2 ↔ 2 ^ 52 ≤ m := Nat.le_log2 nonzero
  rw [← full]
  omega

/-- The fields of a number that was put together in range spell it. -/
theorem InRange.parts_finite {m : Nat} {e : Int} (range : InRange m e) (s : Sign) (positive : 0 < m) :
    (parts (ofUnpacked (.finite s m e positive))).exponent ≠ 2047 ∧
      (parts (ofUnpacked (.finite s m e positive))).significand = m ∧
      (parts (ofUnpacked (.finite s m e positive))).scale = e ∧
      (parts (ofUnpacked (.finite s m e positive))).sign = s := by
  have short := range.short
  have least := range.least
  have greatest := range.greatest
  have inRange : ¬2048 ≤ (e + 1075).toNat + 1 := by omega
  have sign (exponent fraction : Nat) :
      (Parts.mk (s.toBitVec.toNat == 1) exponent fraction).sign = s := by
    cases s with
    | negative => rfl
    | positive => rfl
  have length := range.log2_eq_iff positive
  rw [Binary64.parts_finite, if_neg inRange]
  by_cases full : 2 ^ 52 ≤ m
  · rw [if_pos (length.2 full)]
    have exponent : (e + 1075).toNat ≠ 0 := by omega
    refine ⟨?_, ?_, ?_, sign _ _⟩
    · show (e + 1075).toNat ≠ 2047
      omega
    · rw [Parts.significand, if_neg exponent]
      show m % 2 ^ 52 + 2 ^ 52 = m
      omega
    · show (max (e + 1075).toNat 1 : Nat) - (1075 : Int) = e
      omega
  · rw [if_neg (mt length.1 full)]
    have low : e = -1074 := range.full.resolve_left full
    refine ⟨?_, ?_, ?_, sign _ _⟩
    · show 0 ≠ 2047
      omega
    · show m % 2 ^ 52 = m
      omega
    · rw [low]
      rfl

/-- What was put together from a sign and a significand is a number, if only an infinite one. -/
theorem isNaN_ofUnpacked {u : UnpackedFloat} (number : u.isNaN = false) :
    (ofUnpacked u).isNaN = false := by
  rw [isNaN_eq, decide_eq_false_iff_not]
  intro special
  obtain ⟨top, payload⟩ := special
  cases u with
  | infinity s =>
    rw [parts_infinity] at payload
    exact payload rfl
  | notANumber => cases number
  | zero s =>
    rw [parts_zero] at payload
    exact payload rfl
  | finite s m e positive =>
    rw [parts_finite] at top payload
    by_cases overflow : 2048 ≤ (e + 1075).toNat + 1
    · rw [if_pos overflow] at payload
      exact payload rfl
    · rw [if_neg overflow] at top
      by_cases full : m.log2 = 52
      · rw [if_pos full] at top
        have exponent : (e + 1075).toNat = 2047 := top
        omega
      · rw [if_neg full] at top
        cases top

end Rollup.Number.Binary64
