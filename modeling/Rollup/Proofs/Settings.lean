import Mathlib.Data.List.Induction
import Mathlib.Data.Nat.Digits.Defs
import Mathlib.Logic.Function.Basic
import Rollup.Proofs.Number.Spelling
import Rollup.Settings

namespace Rollup

namespace Number.Reading

/-- A run of decimal digits, with its value by places. -/
def Digits (cs : List Char) (n : Nat) : Prop :=
  cs ≠ [] ∧ (∀ c ∈ cs, '0' ≤ c ∧ c ≤ '9') ∧ Nat.ofDigits 10 (cs.reverse.map fun c => c.toNat - '0'.toNat) = n

/-- A count is a run of digits, perhaps after a plus sign, below 2 to the 64th. -/
def Count (cs : List Char) (n : Nat) : Prop :=
  ∃ sign digits, cs = sign ++ digits ∧ (sign = [] ∨ sign = ['+']) ∧ Digits digits n ∧ n < 2 ^ 64

theorem ofDigits_eq (cs : List Char) :
    ofDigits cs = Nat.ofDigits 10 (cs.reverse.map fun c => c.toNat - '0'.toNat) := by
  induction cs using List.reverseRecOn with
  | nil => rfl
  | append_singleton cs c ih =>
    rw [ofDigits, List.foldl_append, List.reverse_concat, List.map_cons, Nat.ofDigits_cons, ← ih, Nat.add_comm]
    rfl

theorem isDigit_iff (c : Char) : c.isDigit = true ↔ '0' ≤ c ∧ c ≤ '9' := by
  simp only [Char.isDigit, Bool.and_eq_true, decide_eq_true_eq]
  exact Iff.rfl

theorem digits?_eq_some_iff {cs : List Char} {n : Nat} : digits? cs = some n ↔ Digits cs n := by
  have nonempty : (!cs.isEmpty) = true ↔ cs ≠ [] := by simp
  simp only [digits?, Digits, ← isDigit_iff, ← ofDigits_eq, ← List.all_eq_true, ← nonempty, ← and_assoc,
    ← Bool.and_eq_true]
  by_cases run : (!cs.isEmpty && cs.all Char.isDigit) = true
  · simp [run]
  · simp [run]

theorem count?_of_sign {sign digits : List Char} (signed : sign = [] ∨ sign = ['+'])
    (run : ∀ c ∈ digits, '0' ≤ c ∧ c ≤ '9') :
    count? (sign ++ digits) = (digits? digits).filter (· < 1 <<< 64) := by
  rcases signed with rfl | rfl
  · have unsigned (rest : List Char) : digits ≠ '+' :: rest := by
      rintro rfl
      exact absurd (run '+' List.mem_cons_self) (by decide)
    rw [List.nil_append, count?]
    exact unsigned
  · rfl

theorem count?_eq_some_iff {cs : List Char} {n : Nat} : count? cs = some n ↔ Count cs n := by
  constructor
  · intro read
    have split : ∃ sign digits, cs = sign ++ digits ∧ (sign = [] ∨ sign = ['+']) ∧
        (digits? digits).filter (· < 1 <<< 64) = some n := by
      unfold count? at read
      split at read
      · exact ⟨['+'], _, rfl, .inr rfl, read⟩
      · exact ⟨[], cs, rfl, .inl rfl, read⟩
    obtain ⟨sign, digits, same, signed, read⟩ := split
    obtain ⟨value, small⟩ := Option.filter_eq_some_iff.1 read
    rw [decide_eq_true_eq, Nat.one_shiftLeft] at small
    exact ⟨sign, digits, same, signed, digits?_eq_some_iff.1 value, small⟩
  · rintro ⟨sign, digits, rfl, signed, run, small⟩
    rw [count?_of_sign signed run.2.1, Option.filter_eq_some_iff, decide_eq_true_eq, Nat.one_shiftLeft]
    exact ⟨digits?_eq_some_iff.2 run, small⟩

theorem digits?_zeros_append (zeros : Nat) {cs : List Char} {n : Nat} (read : digits? cs = some n) :
    digits? (List.replicate zeros '0' ++ cs) = some n := by
  rw [digits?_eq_some_iff] at read ⊢
  obtain ⟨nonempty, run, value⟩ := read
  refine ⟨fun empty => nonempty (List.append_eq_nil_iff.1 empty).2, ?_, ?_⟩
  · intro c member
    rcases List.mem_append.1 member with zero | digit
    · rw [List.eq_of_mem_replicate zero]
      decide
    · exact run c digit
  · have nothing : Nat.ofDigits 10 (List.replicate zeros 0) = 0 := by
      induction zeros with
      | zero => rfl
      | succ zeros ih => rw [List.replicate_succ, Nat.ofDigits_cons, ih]
    rw [List.reverse_append, List.map_append, Nat.ofDigits_append, value, List.reverse_replicate,
      List.map_replicate]
    show n + _ * Nat.ofDigits 10 (List.replicate zeros 0) = n
    rw [nothing, Nat.mul_zero, Nat.add_zero]

end Number.Reading

namespace Settings
open Number.Reading Text.Blank

/-- A text stands for a count when trimming it and dropping its underscores leaves one. -/
def Counts (raw : String) (n : Nat) : Prop :=
  ∃ body, Trimmed raw.toList body ∧ Count (body.filter (· != '_')) n

/-- A variable that holds a count. -/
def Given (lookup : String → Option String) (name : String) (n : Nat) : Prop :=
  ∃ raw, lookup name = some raw ∧ Counts raw n

/-- The ways to write a number in decimal: perhaps with a plus sign and zeros in front, with underscores in any
places, and with blanks around the whole. -/
def Writes (raw : String) (n : Nat) : Prop :=
  ∃ before body after sign zeros, raw.toList = before ++ body ++ after ∧ (∀ c ∈ before, isBlank c = true) ∧
    (∀ c ∈ after, isBlank c = true) ∧ (sign = [] ∨ sign = ['+']) ∧
    body.filter (· != '_') = sign ++ (List.replicate zeros '0' ++ Nat.toDigits 10 n)

theorem count?_eq_some_iff {raw : String} {n : Nat} : count? raw = some n ↔ Counts raw n := by
  rw [count?, Number.Reading.count?_eq_some_iff]
  simp only [Counts, ← trim_eq_iff, exists_eq_left']

theorem count?_of_writes {raw : String} {n : Nat} (writes : Writes raw n) :
    count? raw = (some n).filter (· < 1 <<< 64) := by
  obtain ⟨before, body, after, sign, zeros, text, blanksBefore, blanksAfter, signed, kept⟩ := writes
  have value := digits?_zeros_append zeros (digits?_toDigits n)
  have run := (digits?_eq_some_iff.1 value).2.1
  have solid : ∀ c ∈ body, isBlank c = false := by
    intro c member
    by_cases underscore : c = '_'
    · rw [underscore]
      decide
    · have kept : c ∈ sign ++ (List.replicate zeros '0' ++ Nat.toDigits 10 n) := by
        rw [← kept, List.mem_filter]
        exact ⟨member, bne_iff_ne.2 underscore⟩
      rcases List.mem_append.1 kept with plus | digit
      · rcases signed with rfl | rfl
        · cases plus
        · rw [List.mem_singleton.1 plus]
          decide
      · exact isBlank_of_isDigit ((isDigit_iff c).2 (run c digit))
  rw [count?, text, trim_append_append blanksBefore blanksAfter solid, kept, count?_of_sign signed run, value]

theorem writes_toString (n : Nat) : Writes (toString n) n := by
  have digits : (toString n).toList = Nat.toDigits 10 n := Nat.toList_repr
  refine ⟨[], (toString n).toList, [], [], 0, by simp, by simp, by simp, .inl rfl, ?_⟩
  rw [digits, List.filter_eq_self.2]
  · rfl
  · intro c member
    have digit : c.isDigit = true := Nat.isDigit_of_mem_toDigits (by decide) (by decide) member
    rw [bne_iff_ne]
    rintro rfl
    exact absurd digit (by decide)

theorem filter_bind_eq_some_iff {lookup : String → Option String} {name : String} {n : Nat} :
    ((lookup name).bind count?).filter (0 < ·) = some n ↔ 0 < n ∧ Given lookup name n := by
  simp only [Option.filter_eq_some_iff, Option.bind_eq_some_iff, count?_eq_some_iff, decide_eq_true_eq, Given]
  exact and_comm

/-- Only what the two variables are read as matters. -/
theorem ofLookup_congr {lookup lookup' : String → Option String}
    (limit : (lookup groupLimitVariable).bind count? = (lookup' groupLimitVariable).bind count?)
    (timeout : (lookup timeoutVariable).bind count? = (lookup' timeoutVariable).bind count?) :
    ofLookup lookup = ofLookup lookup' := by
  rw [ofLookup, ofLookup, limit, timeout]

theorem groupLimit_ofLookup_eq_iff {lookup : String → Option String} {n : Nat} :
    (ofLookup lookup).groupLimit = n ↔ 0 < n ∧ Given lookup groupLimitVariable n ∨
      n = standard.groupLimit ∧ ∀ m, 0 < m → ¬Given lookup groupLimitVariable m := by
  have given (m : Nat) : ((lookup groupLimitVariable).bind count?).filter (0 < ·) = some m ↔
      0 < m ∧ Given lookup groupLimitVariable m := filter_bind_eq_some_iff
  show (((lookup groupLimitVariable).bind count?).filter (0 < ·)).getD standard.groupLimit = n ↔ _
  cases read : ((lookup groupLimitVariable).bind count?).filter (0 < ·) with
  | some m =>
    rw [Option.getD_some]
    constructor
    · rintro rfl
      exact .inl ((given m).1 read)
    · rintro (count | ⟨-, never⟩)
      · exact Option.some.inj (read.symm.trans ((given n).2 count))
      · obtain ⟨positive, set⟩ := (given m).1 read
        exact absurd set (never m positive)
  | none =>
    rw [Option.getD_none]
    constructor
    · rintro rfl
      refine .inr ⟨rfl, ?_⟩
      intro m positive set
      cases read.symm.trans ((given m).2 ⟨positive, set⟩)
    · rintro (count | ⟨same, -⟩)
      · cases read.symm.trans ((given n).2 count)
      · exact same.symm

theorem timeout_ofLookup_eq_some_iff {lookup : String → Option String} {n : Nat} :
    (ofLookup lookup).timeout = some n ↔ 0 < n ∧ Given lookup timeoutVariable n := filter_bind_eq_some_iff

/-- Whatever the variables hold, the settings are valid. The group limit is the positive count that its variable
holds, and the standard one where it holds none; the timeout is the positive count of milliseconds that its
variable holds, and there is none where it holds none; all else is standard, and neither variable has a say in
what the other sets. All ways to write a number are counts while it is below 2 to the 64th, and make the same
settings as its plain decimal text. -/
theorem ofLookup_exact (lookup : String → Option String) :
    (ofLookup lookup).validate = .ok () ∧
    (∀ n, (ofLookup lookup).groupLimit = n ↔ 0 < n ∧ Given lookup groupLimitVariable n ∨
      n = standard.groupLimit ∧ ∀ m, 0 < m → ¬Given lookup groupLimitVariable m) ∧
    (∀ n, (ofLookup lookup).timeout = some n ↔ 0 < n ∧ Given lookup timeoutVariable n) ∧
    (ofLookup lookup).sortStat = standard.sortStat ∧
    (ofLookup lookup).checkInterval = standard.checkInterval ∧
    (∀ value, (ofLookup (Function.update lookup timeoutVariable value)).groupLimit = (ofLookup lookup).groupLimit ∧
      (ofLookup (Function.update lookup groupLimitVariable value)).timeout = (ofLookup lookup).timeout) ∧
    ∀ raw n, Writes raw n → (Counts raw n ↔ n < 2 ^ 64) ∧ ∀ name,
      ofLookup (Function.update lookup name (some raw)) =
        ofLookup (Function.update lookup name (some (toString n))) := by
  refine ⟨validate_ofLookup lookup, fun n => groupLimit_ofLookup_eq_iff, fun n => timeout_ofLookup_eq_some_iff,
    rfl, rfl, ?_, ?_⟩
  · intro value
    have apart : groupLimitVariable ≠ timeoutVariable := by decide
    constructor
    · rw [ofLookup, Function.update_of_ne apart]
      rfl
    · rw [ofLookup, Function.update_of_ne apart.symm]
      rfl
  · intro raw n writes
    have read := count?_of_writes writes
    constructor
    · rw [← count?_eq_some_iff, read, Option.filter_eq_some_iff, decide_eq_true_eq, Nat.one_shiftLeft]
      exact and_iff_right rfl
    · intro name
      have alike (other : String) : (Function.update lookup name (some raw) other).bind count? =
          (Function.update lookup name (some (toString n)) other).bind count? := by
        by_cases here : other = name
        · rw [here, Function.update_self, Function.update_self, Option.bind_some, Option.bind_some, read,
            count?_of_writes (writes_toString n)]
        · rw [Function.update_of_ne here, Function.update_of_ne here]
      exact ofLookup_congr (alike _) (alike _)

/-- A thousand, with a sign, a zero, underscores and blanks of two kinds. -/
def padded : String := " +0_1_000_\u00a0"

def paddedLimit (name : String) : Option String := if name = groupLimitVariable then some padded else some "0"

theorem ofLookup_exact_of_padded : Writes padded 1000 ∧ Counts padded 1000 ∧
    (ofLookup paddedLimit).validate = .ok () ∧ (ofLookup paddedLimit).groupLimit = 1000 ∧
    (ofLookup paddedLimit).timeout = none := by
  have writes : Writes padded 1000 :=
    ⟨[' '], "+0_1_000_".toList, ['\u00a0'], ['+'], 1, by decide, List.forall_mem_singleton.2 (by decide),
      List.forall_mem_singleton.2 (by decide), .inr rfl, by decide⟩
  obtain ⟨valid, limit, timeout, -, -, -, written⟩ := ofLookup_exact paddedLimit
  have counts : Counts padded 1000 := (written padded 1000 writes).1.2 (by decide)
  have positive : 0 < 1000 := by decide
  refine ⟨writes, counts, valid, (limit 1000).2 (.inl ⟨positive, padded, by decide, counts⟩), ?_⟩
  rw [Option.eq_none_iff_forall_ne_some]
  intro n given
  obtain ⟨positive, raw, held, counted⟩ := (timeout n).1 given
  have zero : paddedLimit timeoutVariable = some "0" ∧ count? "0" = some 0 := by decide
  obtain rfl := Option.some.inj (zero.1.symm.trans held)
  obtain rfl := Option.some.inj (zero.2.symm.trans (count?_eq_some_iff.2 counted))
  exact absurd positive (by decide)

end Settings
end Rollup
