import Mathlib.Data.List.Induction
import Rollup.Proofs.Number.Counting
import Rollup.Proofs.Stream.Fold
import Rollup.Proofs.Table
import Rollup.Stream.Crossing

namespace Rollup
open Number.Binary64

/-- How many values are no greater. -/
def rank (values : List Int64) (v : Int64) : Nat := values.countP (· ≤ v)

theorem rank_le_length (values : List Int64) (v : Int64) : rank values v ≤ values.length :=
  List.countP_le_length

/-- What answers a test of ranks: the least value that passes, the greatest where none does, and zero
where there is no value. -/
inductive Answers (test : Nat → Prop) (values : List Int64) : Int64 → Prop where
  | reached {v : Int64} (member : v ∈ values) (passes : test (rank values v))
      (least : ∀ u ∈ values, test (rank values u) → v ≤ u) : Answers test values v
  | unreached {v : Int64} (member : v ∈ values) (fails : ∀ u ∈ values, ¬test (rank values u))
      (greatest : ∀ u ∈ values, u ≤ v) : Answers test values v
  | nobody (empty : values = []) : Answers test values 0

theorem exists_greatest {l : List Int64} (nonempty : l ≠ []) : ∃ v ∈ l, ∀ u ∈ l, u ≤ v := by
  induction l with
  | nil => exact absurd rfl nonempty
  | cons a rest ih =>
    by_cases single : rest = []
    · subst single
      refine ⟨a, List.mem_cons_self, ?_⟩
      intro u member
      rw [List.mem_singleton.1 member]
      exact Int64.le_refl a
    · obtain ⟨v, member, greatest⟩ := ih single
      by_cases above : v ≤ a
      · refine ⟨a, List.mem_cons_self, ?_⟩
        intro u member'
        rcases List.mem_cons.1 member' with same | later
        · rw [same]
          exact Int64.le_refl a
        · exact Int64.le_trans (greatest u later) above
      · refine ⟨v, List.mem_cons_of_mem a member, ?_⟩
        intro u member'
        rcases List.mem_cons.1 member' with same | later
        · rw [same]
          exact Int64.le_of_lt (Int64.not_le.1 above)
        · exact greatest u later

/-- Every test has an answer. -/
theorem exists_answers (test : Nat → Prop) (values : List Int64) : ∃ v, Answers test values v := by
  classical
  by_cases empty : values = []
  · exact ⟨0, .nobody empty⟩
  · cases least : (values.filter fun u => test (rank values u)).min? with
    | some v =>
      obtain ⟨member, below⟩ := List.min?_eq_some_iff.1 least
      obtain ⟨here, passes⟩ := List.mem_filter.1 member
      refine ⟨v, .reached here (of_decide_eq_true passes) ?_⟩
      intro u uMember uPasses
      exact below u (List.mem_filter.2 ⟨uMember, decide_eq_true uPasses⟩)
    | none =>
      have nowhere := List.filter_eq_nil_iff.1 (List.min?_eq_none_iff.1 least)
      obtain ⟨v, member, greatest⟩ := exists_greatest empty
      refine ⟨v, .unreached member ?_ greatest⟩
      intro u uMember uPasses
      exact nowhere u uMember (decide_eq_true uPasses)

namespace Answers
variable {test other : Nat → Prop} {values : List Int64} {v w : Int64}

theorem mem_of_ne_nil (answer : Answers test values v) (somebody : values ≠ []) : v ∈ values := by
  cases answer with
  | reached member _ _ => exact member
  | unreached member _ _ => exact member
  | nobody empty => exact absurd empty somebody

theorem eq_zero (answer : Answers test values v) (empty : values = []) : v = 0 := by
  subst empty
  cases answer with
  | reached member _ _ => cases member
  | unreached member _ _ => cases member
  | nobody _ => rfl

/-- No test has two answers. -/
theorem unique (first : Answers test values v) (second : Answers test values w) : v = w := by
  cases first with
  | reached member passes least =>
    cases second with
    | reached member' passes' least' =>
      exact Int64.le_antisymm (least w member' passes') (least' v member passes)
    | unreached _ fails _ => exact absurd passes (fails v member)
    | nobody empty =>
      rw [empty] at member
      cases member
  | unreached member fails greatest =>
    cases second with
    | reached member' passes' _ => exact absurd passes' (fails w member')
    | unreached member' _ greatest' => exact Int64.le_antisymm (greatest' v member) (greatest w member')
    | nobody empty =>
      rw [empty] at member
      cases member
  | nobody empty => exact (second.eq_zero empty).symm

end Answers

/-- How many values are no greater as numbers, where distinct integers may be one number. -/
def numberRank (values : List Int64) (v : Int64) : Nat := values.countP (ofInt64 · ≤ ofInt64 v)

theorem rank_le_numberRank (values : List Int64) {u v : Int64} (h : ofInt64 v ≤ ofInt64 u) :
    rank values v ≤ numberRank values u := by
  apply List.countP_mono_left
  intro w _ below
  have order := level_ofInt64_mono (of_decide_eq_true below)
  rw [ofInt64_le_iff] at h
  exact decide_eq_true ((ofInt64_le_iff w u).2 (Int.le_trans order h))

/-- The greatest value of a number has the rank of the number. -/
theorem exists_rank_eq {values : List Int64} {u : Int64} (member : u ∈ values) :
    ∃ w ∈ values, ofInt64 w ≤ ofInt64 u ∧ rank values w = numberRank values u := by
  have somebody : (values.filter (ofInt64 · ≤ ofInt64 u)) ≠ [] := by
    apply List.ne_nil_of_mem (a := u)
    exact List.mem_filter.2 ⟨member, decide_eq_true ((ofInt64_le_iff u u).2 (Int.le_refl _))⟩
  obtain ⟨w, here, greatest⟩ := exists_greatest somebody
  obtain ⟨wMember, below⟩ := List.mem_filter.1 here
  have order := (ofInt64_le_iff w u).1 (of_decide_eq_true below)
  refine ⟨w, wMember, of_decide_eq_true below, ?_⟩
  apply List.countP_congr
  intro x xMember
  simp only [decide_eq_true_eq]
  constructor
  · intro low
    exact (ofInt64_le_iff x u).2 (Int.le_trans (level_ofInt64_mono low) order)
  · intro low
    exact greatest x (List.mem_filter.2 ⟨xMember, decide_eq_true low⟩)

namespace Answers
variable {test other : Nat → Prop} {values : List Int64} {v w : Int64}

/-- As a number, an answer is where the numbers below the greatest start to pass. -/
theorem passes_iff (mono : ∀ a b, a ≤ b → b ≤ values.length → test a → test b)
    (answer : Answers test values v) {u : Int64} (member : u ∈ values)
    (higher : ∃ x ∈ values, ofInt64 u < ofInt64 x) :
    test (numberRank values u) ↔ ofInt64 v ≤ ofInt64 u := by
  obtain ⟨top, topMember, topLe, topRank⟩ := exists_rank_eq member
  rw [ofInt64_le_iff] at topLe
  cases answer with
  | reached vMember passes least =>
    constructor
    · intro uPasses
      rw [← topRank] at uPasses
      have order := level_ofInt64_mono (least top topMember uPasses)
      exact (ofInt64_le_iff v u).2 (Int.le_trans order topLe)
    · intro above
      exact mono _ _ (rank_le_numberRank values above) List.countP_le_length passes
  | unreached vMember fails greatest =>
    obtain ⟨x, xMember, less⟩ := higher
    have order := level_ofInt64_mono (greatest x xMember)
    rw [ofInt64_lt_iff] at less
    rw [ofInt64_le_iff]
    constructor
    · intro uPasses
      rw [← topRank] at uPasses
      exact absurd uPasses (fails top topMember)
    · intro above
      omega
  | nobody empty =>
    rw [empty] at member
    cases member

/-- Two tests are answered by the same number exactly when they agree on every number below the
greatest. -/
theorem number_eq_iff (mono : ∀ a b, a ≤ b → b ≤ values.length → test a → test b)
    (otherMono : ∀ a b, a ≤ b → b ≤ values.length → other a → other b)
    (first : Answers test values v) (second : Answers other values w) :
    ofInt64 v = ofInt64 w ↔ ∀ u ∈ values, (∃ x ∈ values, ofInt64 u < ofInt64 x) →
      (test (numberRank values u) ↔ other (numberRank values u)) := by
  constructor
  · intro same u member higher
    rw [first.passes_iff mono member higher, second.passes_iff otherMono member higher, same]
  · intro agree
    by_cases empty : values = []
    · rw [first.eq_zero empty, second.eq_zero empty]
    · have vMember := first.mem_of_ne_nil empty
      have wMember := second.mem_of_ne_nil empty
      have split {u x : Int64} (uMember : u ∈ values) (xMember : x ∈ values)
          (less : level (ofInt64 u) < level (ofInt64 x)) :
          (ofInt64 v ≤ ofInt64 u ↔ ofInt64 w ≤ ofInt64 u) := by
        have higher : ∃ x ∈ values, ofInt64 u < ofInt64 x := ⟨x, xMember, (ofInt64_lt_iff u x).2 less⟩
        rw [← first.passes_iff mono uMember higher, ← second.passes_iff otherMono uMember higher]
        exact agree u uMember higher
      rw [ofInt64_eq_iff]
      rcases Int.lt_trichotomy (level (ofInt64 v)) (level (ofInt64 w)) with less | same | less
      · have apart := split vMember wMember less
        rw [ofInt64_le_iff, ofInt64_le_iff] at apart
        omega
      · exact same
      · have apart := split wMember vMember less
        rw [ofInt64_le_iff, ofInt64_le_iff] at apart
        omega

end Answers

section Ascending
variable {terms : List Int64} (ascending : terms.Pairwise fun a b => a < b)

include ascending in
/-- What is found first is the least that is looked for. -/
theorem least_of_find? {p : Int64 → Bool} {t : Int64} (found : terms.find? p = some t) :
    t ∈ terms ∧ p t = true ∧ ∀ u ∈ terms, p u = true → t ≤ u := by
  obtain ⟨passes, front, back, parts, before⟩ := List.find?_eq_some_iff_append.1 found
  rw [parts, List.pairwise_append, List.pairwise_cons] at ascending
  refine ⟨parts ▸ List.mem_append_right front List.mem_cons_self, passes, ?_⟩
  intro u member uPasses
  rw [parts, List.mem_append, List.mem_cons] at member
  rcases member with earlier | same | later
  · have fails := before u earlier
    rw [uPasses] at fails
    cases fails
  · rw [same]
    exact Int64.le_refl t
  · exact Int64.le_of_lt (ascending.2.1.1 u later)

include ascending in
/-- The last term answers a test that all fail. -/
theorem answers_getLast? {test : Nat → Prop} {values : List Int64} (members : ∀ v, v ∈ terms ↔ v ∈ values)
    (fails : ∀ u ∈ values, ¬test (rank values u)) : Answers test values (terms.getLast?.getD 0) := by
  cases final : terms.getLast? with
  | none =>
    have nobody : terms = [] := List.getLast?_eq_none_iff.1 final
    refine .nobody (List.eq_nil_iff_forall_not_mem.2 ?_)
    intro v member
    rw [← members, nobody] at member
    cases member
  | some t =>
    obtain ⟨front, parts⟩ := List.getLast?_eq_some_iff.1 final
    rw [parts, List.pairwise_append] at ascending
    have here : t ∈ terms := parts ▸ List.mem_append_right front List.mem_cons_self
    refine .unreached ((members t).1 here) fails ?_
    intro u member
    rw [← members, parts, List.mem_append, List.mem_singleton] at member
    rcases member with earlier | same
    · exact Int64.le_of_lt (ascending.2.2 u earlier t List.mem_cons_self)
    · rw [same]
      exact Int64.le_refl t

end Ascending

namespace Tracker

/-- The term found for one target by the terms and counts of a group, from a running count on. -/
def crossing (target : Float) : Int64 → List (Int64 × Int64) → Option Int64 → Option Int64
  | _, [], found => found
  | before, (term, n) :: rest, found =>
    crossing target (before + n) rest
      (if reaches before (before + n) target then some term else found)

theorem last_foldl_see (l : List (Int64 × Int64)) (t : Tracker) :
    (l.foldl (fun t e => t.see e.1 e.2) t).last = (l.getLast?.map (·.1)).or t.last := by
  induction l using List.reverseRecOn with
  | nil => rfl
  | append_singleton rest e _ =>
    rw [List.foldl_append, List.getLast?_concat]
    rfl

theorem zipWith_zipWith {α β : Type} (f g : α → β → α) (l : List α) (m : List β) :
    (l.zipWith f m).zipWith g m = l.zipWith (fun a b => g (f a b) b) m := by
  induction l generalizing m with
  | nil => rfl
  | cons a rest ih =>
    cases m with
    | nil => rfl
    | cons b others => simp [ih]

theorem found_foldl_see (l : List (Int64 × Int64)) (t : Tracker)
    (length : t.found.length = t.targets.length) :
    (l.foldl (fun t e => t.see e.1 e.2) t).found =
      t.found.zipWith (fun found target => crossing target t.count l found) t.targets := by
  induction l generalizing t with
  | nil =>
    show t.found = t.found.zipWith (fun found _ => found) t.targets
    have firsts : (t.found.zip t.targets).map Prod.fst = t.found :=
      List.map_fst_zip (Nat.le_of_eq length)
    rw [List.map_zip_eq_zipWith] at firsts
    exact firsts.symm
  | cons e rest ih =>
    have next : (t.see e.1 e.2).found.length = (t.see e.1 e.2).targets.length := by
      show (List.zipWith _ t.found t.targets).length = t.targets.length
      rw [List.length_zipWith, length, Nat.min_self]
    rw [List.foldl_cons, ih (t.see e.1 e.2) next]
    exact zipWith_zipWith _ _ _ _

/-- Each target has its own answer. -/
theorem answers_foldl_see (l : List (Int64 × Int64)) (targets : List Float) :
    (l.foldl (fun t e => t.see e.1 e.2) (start targets)).answers =
      targets.map fun target =>
        (crossing target 0 l none).getD ((l.getLast?.map (·.1)).getD 0) := by
  have length : (start targets).found.length = (start targets).targets.length := List.length_map _
  rw [Tracker.answers, found_foldl_see l _ length, last_foldl_see]
  show (List.zipWith (fun found target => crossing target 0 l found) (targets.map fun _ => none)
    targets).map (fun found => found.getD (((l.getLast?.map (·.1)).or none).getD 0)) = _
  rw [List.zipWith_map_left, List.zipWith_self, List.map_map, Option.or_none]
  rfl

section Ranks
variable {target : Float} {values : List Int64}

theorem reaches_ofNat {a b : Nat} :
    reaches (Int64.ofNat a) (Int64.ofNat b) target = true ↔ ofCount a < target ∧ target ≤ ofCount b := by
  rw [reaches, Bool.and_eq_true, decide_eq_true_iff, decide_eq_true_iff]
  rfl

theorem ofNat_le_ofNat {a b : Nat} (h : a ≤ b) (short : b ≤ 2 ^ 53) : Int64.ofNat a ≤ Int64.ofNat b := by
  rw [Int64.le_iff_toInt_le, toInt_ofNat (by omega), toInt_ofNat short]
  exact Int.ofNat_le.2 h

theorem le_ofCount_of_le {a b : Nat} (h : a ≤ b) (short : b ≤ 2 ^ 53) (reached : target ≤ ofCount a) :
    target ≤ ofCount b :=
  le_ofInt64_of_le (ofNat_le_ofNat h short) reached

theorem countP_not_mem_cons {terms : List Int64} {t : Int64} (fresh : t ∉ terms) :
    values.countP (· ∉ t :: terms) + values.count t = values.countP (· ∉ terms) := by
  induction values with
  | nil => rfl
  | cons v rest ih =>
    have first : decide (v ∉ t :: terms) = true ↔ v ≠ t ∧ v ∉ terms := by simp
    have second : decide (v ∉ terms) = true ↔ v ∉ terms := decide_eq_true_iff
    have third : (v == t) = true ↔ v = t := beq_iff_eq
    rw [List.countP_cons, List.countP_cons, List.count_cons]
    simp only [first, second, third]
    by_cases same : v = t
    · have absent : v ∉ terms := same ▸ fresh
      rw [if_neg fun h => h.1 same, if_pos same, if_pos absent]
      omega
    · by_cases absent : v ∉ terms
      · rw [if_pos ⟨same, absent⟩, if_neg same, if_pos absent]
        omega
      · rw [if_neg fun h => absent h.2, if_neg same, if_neg absent]
        omega

/-- Terms to come of which every value is one or is below them all: past the first one, what is not to
come is what is no greater than it. -/
theorem cover_rest {t : Int64} {rest : List Int64} (ascending : (t :: rest).Pairwise fun a b => a < b)
    (cover : ∀ v ∈ values, v ∈ t :: rest ∨ ∀ u ∈ t :: rest, v < u) :
    values.countP (· ∉ rest) = rank values t ∧ ∀ v ∈ values, v ∈ rest ∨ ∀ u ∈ rest, v < u := by
  rw [List.pairwise_cons] at ascending
  have outside : ∀ v ∈ values, (v ∉ rest ↔ v ≤ t) := by
    intro v member
    constructor
    · intro notLater
      rcases cover v member with here | below
      · rcases List.mem_cons.1 here with same | later
        · rw [same]
          exact Int64.le_refl t
        · exact absurd later notLater
      · exact Int64.le_of_lt (below t List.mem_cons_self)
    · intro low later
      exact Int64.not_le.2 (ascending.1 v later) low
  constructor
  · apply List.countP_congr
    intro v member
    simp only [decide_eq_true_eq]
    exact outside v member
  · intro v member
    by_cases here : v ∈ rest
    · exact .inl here
    · have low := (outside v member).1 here
      exact .inr fun u uMember => Int64.lt_of_le_of_lt low (ascending.1 u uMember)

/-- From a count that covers the values below the terms to come, a target that was passed stays as it is,
and one that was not is crossed at the first term whose rank is no less than it. -/
theorem crossing_eq (target : Float) (short : values.length ≤ 2 ^ 53) {terms : List Int64}
    (ascending : terms.Pairwise fun a b => a < b)
    (cover : ∀ v ∈ values, v ∈ terms ∨ ∀ u ∈ terms, v < u) (found : Option Int64) :
    crossing target (Int64.ofNat (values.countP (· ∉ terms)))
        (terms.map fun t => (t, Int64.ofNat (values.count t))) found =
      if ofCount (values.countP (· ∉ terms)) < target then
        (terms.find? fun t => target ≤ ofCount (rank values t)).or found
      else found := by
  induction terms generalizing found with
  | nil =>
    show found = _
    rw [List.find?_nil, Option.none_or, ite_self]
  | cons t rest ih =>
    obtain ⟨after, later⟩ := cover_rest ascending cover
    rw [List.pairwise_cons] at ascending
    have fresh : t ∉ rest := by
      intro member
      exact Int64.lt_irrefl (ascending.1 t member)
    have sum : values.countP (· ∉ t :: rest) + values.count t = rank values t := by
      rw [countP_not_mem_cons fresh, after]
    have bound : rank values t ≤ 2 ^ 53 := Nat.le_trans (rank_le_length values t) short
    have before : values.countP (· ∉ t :: rest) ≤ rank values t := by omega
    have step := ih ascending.2 later
    rw [after] at step
    rw [List.map_cons, crossing, ← Int64.ofNat_add, sum, step]
    by_cases waiting : ofCount (values.countP (· ∉ t :: rest)) < target
    · rw [if_pos waiting, List.find?_cons]
      by_cases here : target ≤ ofCount (rank values t)
      · have passed : ¬ofCount (rank values t) < target := not_lt_of_le_ofInt64 here
        rw [if_neg passed, if_pos (reaches_ofNat.2 ⟨waiting, here⟩), decide_eq_true here]
        rfl
      · have number := (isNaN_of_lt waiting).2
        have below : ofCount (rank values t) < target := (not_le_ofInt64_iff number _).1 here
        rw [if_pos below, if_neg fun reached => here (reaches_ofNat.1 reached).2,
          decide_eq_false here]
    · have passed : ¬ofCount (rank values t) < target := mt (ofInt64_lt_of_le (ofNat_le_ofNat before bound)) waiting
      rw [if_neg passed, if_neg waiting, if_neg fun reached => waiting (reaches_ofNat.1 reached).1]

/-- What a group's terms and counts leave for a target answers the test whether a positive target is no
greater than a rank. -/
theorem answers_crossing (target : Float) (short : values.length ≤ 2 ^ 53) {terms : List Int64}
    (ascending : terms.Pairwise fun a b => a < b) (members : ∀ v, v ∈ terms ↔ v ∈ values) :
    Answers (fun n => 0 < target ∧ target ≤ ofCount n) values
      ((crossing target 0 (terms.map fun t => (t, Int64.ofNat (values.count t))) none).getD
        (terms.getLast?.getD 0)) := by
  have nothing : values.countP (· ∉ terms) = 0 := by
    rw [List.countP_eq_zero]
    intro v member outside
    exact of_decide_eq_true outside ((members v).2 member)
  have crossed := crossing_eq target short ascending (fun v member => .inl ((members v).2 member)) none
  have zero : ofCount 0 = 0 := by decide +kernel
  have start : Int64.ofNat 0 = 0 := rfl
  rw [nothing, zero, start] at crossed
  rw [crossed]
  by_cases positive : 0 < target
  · rw [if_pos positive, Option.or_none]
    cases first : terms.find? fun t => target ≤ ofCount (rank values t) with
    | none =>
      apply answers_getLast? ascending members
      intro u member passes
      have missed := List.find?_eq_none.1 first u ((members u).2 member)
      exact missed (decide_eq_true passes.2)
    | some t =>
      obtain ⟨member, passes, least⟩ := least_of_find? ascending first
      refine .reached ((members t).1 member) ⟨positive, of_decide_eq_true passes⟩ ?_
      intro u uMember uPasses
      exact least u ((members u).2 uMember) (decide_eq_true uPasses.2)
  · rw [if_neg positive]
    apply answers_getLast? ascending members
    intro u _ passes
    exact positive passes.1

end Ranks
end Tracker

/-- An integer term with its count. -/
def Term.counted? (count : Float) : Term → Option (Int64 × Int64)
  | .int v => some (v, round count)
  | .text _ => none

def Record.counted? (countRef : StatRef) (r : Record) : Option (Int64 × Int64) :=
  r.term.counted? (countRef.read r.stats)

namespace Crossing

/-- Takes in a record that has an integer term. -/
def seeRecord (countRef : StatRef) (trackers : Table GroupId Tracker) (r : Record) :
    Table GroupId Tracker :=
  match r.term with
  | .int v => see countRef v r.group r.stats trackers
  | .text _ => trackers

/-- A group is tracked by its own records. -/
theorem get?_foldl_seeRecord (countRef : StatRef) (records : List Record)
    (trackers : Table GroupId Tracker) (g : GroupId) :
    (records.foldl (seeRecord countRef) trackers).get? g =
      (trackers.get? g).map fun t =>
        ((records.filter (·.group = g)).filterMap (Record.counted? countRef)).foldl
          (fun t e => t.see e.1 e.2) t := by
  induction records generalizing trackers with
  | nil => exact Option.map_id'.symm
  | cons r rest ih =>
    obtain ⟨field, term, group, stats⟩ := r
    rw [List.foldl_cons, ih]
    cases term with
    | text v =>
      by_cases here : group = g
      · simp [seeRecord, Record.counted?, Term.counted?, List.filterMap_cons, here]
      · simp [seeRecord, here]
    | int v =>
      by_cases here : group = g
      · subst here
        cases tracked : trackers.get? group with
        | none => simp [seeRecord, see, tracked]
        | some t => simp [seeRecord, see, tracked, Record.counted?, Term.counted?, Table.get?_insert]
      · have other : g ≠ group := fun same => here same.symm
        cases tracked : trackers.get? group with
        | none => simp [seeRecord, see, tracked, here]
        | some t => simp [seeRecord, see, tracked, here, other, Table.get?_insert]

/-- A stream without text terms is taken in whole. -/
theorem result_sink (countRef : StatRef) {deadline : Deadline} (inTime : deadline.missed = false)
    {records : List Record} (integers : ∀ r ∈ records, ∃ v, r.term = .int v)
    (trackers : Table GroupId Tracker) :
    (sink countRef).result deadline (records.map .ok) trackers =
      .ok (records.foldl (seeRecord countRef) trackers) := by
  apply Sink.result_of_accept (f := fun r trackers => seeRecord countRef trackers r) inTime
  intro r member state
  obtain ⟨v, integer⟩ := integers r member
  rw [Sink.accept, seeRecord, integer]
  rfl

end Crossing
end Rollup
