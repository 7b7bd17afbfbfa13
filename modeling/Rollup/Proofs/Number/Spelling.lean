import Rollup.Proofs.Text.Blank
import Rollup.Term

namespace Rollup

open Number.Reading Text.Blank

theorem digits?_toDigits (n : Nat) : digits? (Nat.toDigits 10 n) = some n := by
  have digits : (Nat.toDigits 10 n).all Char.isDigit = true :=
    List.all_eq_true.2 fun c member => Nat.isDigit_of_mem_toDigits (by decide) (by decide) member
  have some : (Nat.toDigits 10 n).isEmpty = false := List.isEmpty_eq_false_iff.2 Nat.toDigits_ne_nil
  rw [digits?, digits, some]
  exact congrArg Option.some (Nat.ofDigitChars_toDigits (by decide) (by decide))

theorem toList_toString (v : Int64) : (toString v).toList =
    if 0 ≤ v.toInt then Nat.toDigits 10 v.toInt.toNat else '-' :: Nat.toDigits 10 (-v.toInt).toNat := by
  have shown : toString v = v.toInt.repr := rfl
  rw [shown, Int.repr_eq_if]
  by_cases positive : 0 ≤ v.toInt
  · rw [if_pos positive, if_pos positive, Nat.toList_repr]
  · rw [if_neg positive, if_neg positive, String.toList_append, Nat.toList_repr]
    rfl

theorem int64?_toString (v : Int64) : int64? (toString v).toList = some v := by
  have inside : (Int64.minValue.toInt ≤ v.toInt && v.toInt ≤ Int64.maxValue.toInt) = true := by
    simp only [v.minValue_le_toInt, v.toInt_le, decide_true, Bool.and_self]
  have inRange {n : Int} (same : n = v.toInt) : ((some n).filter fun n =>
      Int64.minValue.toInt ≤ n && n ≤ Int64.maxValue.toInt).map Int64.ofInt = some v := by
    rw [same, Option.filter_some, if_pos inside, Option.map_some, Int64.ofInt_toInt]
  rw [toList_toString]
  by_cases positive : 0 ≤ v.toInt
  · rw [if_pos positive]
    obtain ⟨c, rest, text⟩ := List.exists_cons_of_ne_nil (Nat.toDigits_ne_nil (n := v.toInt.toNat) (b := 10))
    have digit : c.isDigit = true :=
      Nat.isDigit_of_mem_toDigits (by decide) (by decide) (text ▸ List.mem_cons_self)
    have unsigned : c ≠ '-' ∧ c ≠ '+' := by
      constructor <;> rintro rfl <;> exact absurd digit (by decide)
    have read := digits?_toDigits v.toInt.toNat
    rw [text] at read ⊢
    rw [int64?, read]
    · exact inRange (Int.toNat_of_nonneg positive)
    · exact fun rest' same => unsigned.1 (List.cons.inj same).1
    · exact fun rest' same => unsigned.2 (List.cons.inj same).1
  · have magnitude : -((-v.toInt).toNat : Int) = v.toInt := by omega
    rw [if_neg positive, int64?, digits?_toDigits]
    exact inRange magnitude

theorem Term.asInt_toString (v : Int64) : (text (toString v)).asInt = some v := by
  have digits {n : Nat} : ∀ c ∈ Nat.toDigits 10 n, isBlank c = false := fun c member =>
    isBlank_of_isDigit (Nat.isDigit_of_mem_toDigits (by decide) (by decide) member)
  have solid : ∀ c ∈ (toString v).toList, isBlank c = false := by
    rw [toList_toString]
    by_cases positive : 0 ≤ v.toInt
    · rw [if_pos positive]
      exact digits
    · rw [if_neg positive, List.forall_mem_cons]
      exact ⟨rfl, digits⟩
  rw [asInt, trim_of_forall solid, int64?_toString]

end Rollup
