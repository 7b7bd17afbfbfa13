import Mathlib.Data.List.DropRight
import Rollup.Text.Blank

namespace Rollup.Text.Blank

theorem isBlank_of_isDigit {c : Char} (digit : c.isDigit = true) : isBlank c = false := by
  simp only [Char.isDigit, Bool.and_eq_true, decide_eq_true_eq, ge_iff_le, UInt32.le_iff_toNat_le] at digit
  have code : 48 ≤ c.toNat ∧ c.toNat ≤ 57 := digit
  simp [isBlank, ranges]
  omega

/-- A text stands between blanks, and itself neither starts nor ends with one. -/
def Trimmed (cs body : List Char) : Prop :=
  ∃ before after, cs = before ++ body ++ after ∧ (∀ c ∈ before, isBlank c = true) ∧
    (∀ c ∈ after, isBlank c = true) ∧ (∀ c ∈ body.head?, isBlank c = false) ∧
    ∀ c ∈ body.getLast?, isBlank c = false

theorem dropWhile_of_head? {cs : List Char} (solid : ∀ c ∈ cs.head?, isBlank c = false) :
    cs.dropWhile isBlank = cs := by
  cases cs with
  | nil => rfl
  | cons c rest => rw [List.dropWhile_cons, solid c rfl]; rfl

theorem isBlank_of_head?_dropWhile {cs : List Char} :
    ∀ c ∈ (cs.dropWhile isBlank).head?, isBlank c = false := by
  intro c first
  have stop := List.head?_dropWhile_not isBlank cs
  rw [Option.mem_def.1 first] at stop
  exact stop

theorem trim_of_trimmed {cs body : List Char} (trimmed : Trimmed cs body) : trim cs = body := by
  obtain ⟨before, after, rfl, blanksBefore, blanksAfter, starts, ends⟩ := trimmed
  rw [trim, List.append_assoc, List.dropWhile_append_of_pos blanksBefore]
  cases body with
  | nil =>
    rw [List.nil_append, List.dropWhile_eq_nil_iff.2 blanksAfter]
    rfl
  | cons c rest =>
    have untouched : (c :: rest ++ after).dropWhile isBlank = c :: rest ++ after := dropWhile_of_head? starts
    have blanks : ∀ c ∈ after.reverse, isBlank c = true := fun c member => blanksAfter c (List.mem_reverse.1 member)
    rw [untouched, trimEnd, List.reverse_append, List.dropWhile_append_of_pos blanks, dropWhile_of_head?,
      List.reverse_reverse]
    rw [List.head?_reverse]
    exact ends

theorem trimmed_trim (cs : List Char) : Trimmed cs (trim cs) := by
  have front : cs.takeWhile isBlank ++ cs.dropWhile isBlank = cs := List.takeWhile_append_dropWhile
  have back : trim cs ++ (cs.dropWhile isBlank).rtakeWhile isBlank = cs.dropWhile isBlank :=
    List.rdropWhile_append_rtakeWhile
  refine ⟨cs.takeWhile isBlank, (cs.dropWhile isBlank).rtakeWhile isBlank, ?_, ?_, ?_, ?_, ?_⟩
  · rw [List.append_assoc, back, front]
  · exact fun c => List.mem_takeWhile_imp
  · exact fun c => List.mem_rtakeWhile_imp
  · intro c first
    have start : c ∈ (cs.dropWhile isBlank).head? := by
      rw [← back, List.head?_append, Option.mem_def.1 first]
      rfl
    exact isBlank_of_head?_dropWhile c start
  · intro c last
    rw [trim, trimEnd, List.getLast?_reverse] at last
    exact isBlank_of_head?_dropWhile c last

theorem trim_eq_iff {cs body : List Char} : trim cs = body ↔ Trimmed cs body :=
  ⟨fun same => same ▸ trimmed_trim cs, trim_of_trimmed⟩

/-- A text without blanks is what trimming leaves of it between blanks. -/
theorem trim_append_append {before body after : List Char} (blanksBefore : ∀ c ∈ before, isBlank c = true)
    (blanksAfter : ∀ c ∈ after, isBlank c = true) (solid : ∀ c ∈ body, isBlank c = false) :
    trim (before ++ body ++ after) = body :=
  trim_of_trimmed ⟨before, after, rfl, blanksBefore, blanksAfter, fun c first => solid c (List.mem_of_head? first),
    fun c last => solid c (List.mem_of_getLast? last)⟩

/-- A text without blanks is not trimmed. -/
theorem trim_of_forall {cs : List Char} (solid : ∀ c ∈ cs, isBlank c = false) : trim cs = cs := by
  have alone : trim ([] ++ cs ++ []) = cs := trim_append_append (by simp) (by simp) solid
  rwa [List.nil_append, List.append_nil] at alone

end Rollup.Text.Blank
