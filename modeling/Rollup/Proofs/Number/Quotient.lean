import Mathlib.Algebra.Group.Nat.Defs
import Mathlib.Tactic.SplitIfs
import Rollup.Number.Binary64

namespace Rollup.Number.Binary64
open Float.Model Float.Model.UnpackedFloat

/-- The integer nearest to a quotient, and of two the even one. -/
def nearestQuotient (a b : Nat) : Nat :=
  a / b + if 2 * (a % b) < b then 0 else if b < 2 * (a % b) then 1 else a / b % 2

section Quotient
variable {a b : Nat}

theorem div_le_nearestQuotient (a b : Nat) : a / b ≤ nearestQuotient a b := Nat.le_add_right _ _

theorem nearestQuotient_le (a b : Nat) : nearestQuotient a b ≤ a / b + 1 := by
  have even : a / b % 2 < 2 := Nat.mod_lt _ Nat.two_pos
  unfold nearestQuotient
  split_ifs <;> omega

/-- It is the quotient or the next integer, the nearer one of them. -/
theorem exists_nearestQuotient_eq (a b : Nat) :
    ∃ up ≤ 1, nearestQuotient a b = a / b + up ∧ (2 * (a % b) < b → up = 0) ∧ (b < 2 * (a % b) → up = 1) := by
  have above := nearestQuotient_le a b
  have below := div_le_nearestQuotient a b
  refine ⟨nearestQuotient a b - a / b, by omega, by omega, ?_, ?_⟩
  · intro less
    rw [nearestQuotient, if_pos less, Nat.add_zero, Nat.sub_self]
  · intro more
    rw [nearestQuotient, if_neg (Nat.lt_asymm more), if_pos more, Nat.add_sub_cancel_left]

theorem nearestQuotient_mono {a' : Nat} (order : a ≤ a') : nearestQuotient a b ≤ nearestQuotient a' b := by
  have quotients : a / b ≤ a' / b := Nat.div_le_div_right order
  by_cases apart : a / b < a' / b
  · have above := nearestQuotient_le a b
    have below := div_le_nearestQuotient a' b
    omega
  · have same : a / b = a' / b := by omega
    have remainders : a % b ≤ a' % b := by
      have parts := Nat.div_add_mod a b
      have parts' := Nat.div_add_mod a' b
      rw [same] at parts
      omega
    unfold nearestQuotient
    rw [same]
    split_ifs <;> omega

theorem nearestQuotient_mul_right {c : Nat} (positive : 0 < c) :
    nearestQuotient (a * c) (b * c) = nearestQuotient a b := by
  have low : 2 * (a % b * c) < b * c ↔ 2 * (a % b) < b := by
    rw [← Nat.mul_assoc]
    exact Nat.mul_lt_mul_right positive
  have high : b * c < 2 * (a % b * c) ↔ b < 2 * (a % b) := by
    rw [← Nat.mul_assoc]
    exact Nat.mul_lt_mul_right positive
  rw [nearestQuotient, nearestQuotient, Nat.mul_div_mul_right _ _ positive, Nat.mul_mod_mul_right]
  simp only [low, high]

end Quotient

/-- What a significand and the two bits behind it say of a quotient: its whole part, whether the rest is at
least a half, and whether it is neither nothing nor a half. -/
structure Represents (m : ExtendedMantissa) (a b : Nat) : Prop where
  mantissa : m.mantissa = a / b
  roundBit : m.roundBit = decide (b ≤ 2 * (a % b))
  stickyBit : m.stickyBit = decide (a % b ≠ 0 ∧ 2 * (a % b) ≠ b)

namespace Represents
variable {m : ExtendedMantissa} {a b : Nat}

theorem ofFraction (a : Nat) (positive : 0 < b) :
    Represents (.ofMantissaAndAccuracy (a / b) (accuracyOfFraction (a % b) b)) a b := by
  unfold accuracyOfFraction
  by_cases whole : a % b = 0
  · rw [if_pos whole]
    exact ⟨rfl, (decide_eq_false (by omega)).symm, (decide_eq_false (by omega)).symm⟩
  · rw [if_neg whole]
    rcases Nat.lt_trichotomy (2 * (a % b)) b with less | half | more
    · rw [Nat.compare_eq_lt.2 less]
      exact ⟨rfl, (decide_eq_false (by omega)).symm, (decide_eq_true ⟨whole, by omega⟩).symm⟩
    · rw [Nat.compare_eq_eq.2 half]
      exact ⟨rfl, (decide_eq_true (by omega)).symm, (decide_eq_false (by omega)).symm⟩
    · rw [Nat.compare_eq_gt.2 more]
      exact ⟨rfl, (decide_eq_true (by omega)).symm, (decide_eq_true ⟨whole, by omega⟩).symm⟩

theorem shiftRightOne (here : Represents m a b) (positive : 0 < b) :
    Represents m.shiftRightOne a (b * 2) := by
  have short := Nat.mod_lt a positive
  have remainder : a % (b * 2) = a % b + b * (a / b % 2) := Nat.mod_mul
  rcases Nat.mod_two_eq_zero_or_one (a / b) with even | odd
  · rw [even, Nat.mul_zero, Nat.add_zero] at remainder
    refine ⟨?_, ?_, ?_⟩
    · rw [ExtendedMantissa.shiftRightOne, here.mantissa, Nat.div_div_eq_div_mul]
    · rw [ExtendedMantissa.shiftRightOne, here.mantissa, even, remainder]
      exact (decide_eq_false (by omega)).symm
    · rw [ExtendedMantissa.shiftRightOne, here.roundBit, here.stickyBit, remainder, ← Bool.decide_or]
      exact decide_eq_decide.2 (by omega)
  · rw [odd, Nat.mul_one] at remainder
    refine ⟨?_, ?_, ?_⟩
    · rw [ExtendedMantissa.shiftRightOne, here.mantissa, Nat.div_div_eq_div_mul]
    · rw [ExtendedMantissa.shiftRightOne, here.mantissa, odd, remainder]
      exact (decide_eq_true (by omega)).symm
    · rw [ExtendedMantissa.shiftRightOne, here.roundBit, here.stickyBit, remainder, ← Bool.decide_or]
      exact decide_eq_decide.2 (by omega)

theorem shiftRight (here : Represents m a b) (positive : 0 < b) (n : Nat) :
    Represents (m >>> n) a (b * 2 ^ n) := by
  induction n with
  | zero =>
    rw [Nat.pow_zero, Nat.mul_one]
    exact here
  | succ n ih =>
    rw [Nat.pow_succ, ← Nat.mul_assoc]
    exact ih.shiftRightOne (Nat.mul_pos positive (Nat.two_pow_pos n))

/-- The two bits are all that rounding to the nearest has to know. -/
theorem roundedMantissa (here : Represents m a b) : m.roundedMantissa = nearestQuotient a b := by
  obtain ⟨mantissa, roundBit, stickyBit⟩ := m
  obtain ⟨rfl, rfl, rfl⟩ := here
  unfold nearestQuotient
  rcases Nat.lt_trichotomy (2 * (a % b)) b with less | half | more
  · rw [if_pos less, decide_eq_false (Nat.not_le.2 less)]
    cases decide (a % b ≠ 0 ∧ 2 * (a % b) ≠ b) with
    | true => rfl
    | false => rfl
  · have tie : ¬(a % b ≠ 0 ∧ 2 * (a % b) ≠ b) := fun both => both.2 half
    rw [if_neg (by omega), if_neg (by omega), decide_eq_true (Nat.le_of_eq half.symm), decide_eq_false tie]
    rfl
  · have beyond : a % b ≠ 0 ∧ 2 * (a % b) ≠ b := ⟨by omega, by omega⟩
    rw [if_neg (by omega), if_pos more, decide_eq_true (Nat.le_of_lt more), decide_eq_true beyond]
    rfl

end Represents

end Rollup.Number.Binary64
