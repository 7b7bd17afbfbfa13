import Mathlib.Data.List.Infix
import Rollup.Proofs.Stream.Crossing

namespace Rollup
open Number.Binary64

/-- What the counts of some terms come to. -/
def tally : List (Int64 × Int64) → Int
  | [] => 0
  | e :: rest => e.2.toInt + tally rest

/-- A tally as a number. -/
def ofTally (n : Int) : Float := ofInt64 (Int64.ofInt n)

@[simp] theorem tally_nil : tally [] = 0 := rfl

@[simp] theorem tally_cons (e : Int64 × Int64) (rest : List (Int64 × Int64)) :
    tally (e :: rest) = e.2.toInt + tally rest := rfl

@[simp] theorem ofTally_toInt (n : Int64) : ofTally n.toInt = ofInt64 n := by
  simp [ofTally]

theorem tally_nonneg {counted : List (Int64 × Int64)} (nonneg : ∀ e ∈ counted, 0 ≤ e.2.toInt) :
    0 ≤ tally counted := by
  induction counted with
  | nil => simp
  | cons e rest ih =>
    obtain ⟨here, others⟩ := List.forall_mem_cons.1 nonneg
    rw [tally_cons]
    exact Int.add_nonneg here (ih others)

theorem toInt_add_of_bounded {a b : Int64} (low : 0 ≤ a.toInt + b.toInt) (high : a.toInt + b.toInt < 2 ^ 63) :
    (a + b).toInt = a.toInt + b.toInt := by
  have sum : Int64.ofInt (a.toInt + b.toInt) = a + b := by simp
  rw [← sum]
  apply Int64.toInt_ofInt_of_le <;> omega

/-- The term at which a tally that runs on from `before` first is no less than a target. There is none if the
tally is no less to begin with. -/
def reachedFrom (target : Float) (before : Int) (counted : List (Int64 × Int64)) : Option Int64 :=
  (counted.inits.find? fun front => target ≤ ofTally (before + tally front)).bind fun front =>
    front.getLast?.map (·.1)

/-- What a target is answered by: the term at which the tally reaches it if it is positive, else the last
term, else zero. -/
def standing (counted : List (Int64 × Int64)) (target : Float) : Int64 :=
  ((if 0 < target then reachedFrom target 0 counted else none).or
    (counted.getLast?.map (·.1))).getD 0

section Reached
variable {target : Float} {before : Int}

@[simp] theorem reachedFrom_nil : reachedFrom target before [] = none := by
  by_cases reached : target ≤ ofTally before <;> simp [reachedFrom, reached]

theorem reachedFrom_of_le (reached : target ≤ ofTally before) (counted : List (Int64 × Int64)) :
    reachedFrom target before counted = none := by
  cases counted <;> simp [reachedFrom, reached]

theorem reachedFrom_of_isNaN (undefined : target.isNaN = true) (counted : List (Int64 × Int64)) :
    reachedFrom target before counted = none := by
  have never (n : Int) : ¬target ≤ ofTally n := by
    intro reached
    have number := (isNaN_of_le reached).1
    rw [undefined] at number
    cases number
  have nowhere : counted.inits.find? (fun front => target ≤ ofTally (before + tally front)) = none := by
    simp [List.find?_eq_none, never]
  rw [reachedFrom, nowhere, Option.bind_none]

/-- Short of the target, the next term reaches it or the tally runs on behind it. -/
theorem reachedFrom_cons (short : ¬target ≤ ofTally before) (e : Int64 × Int64)
    (rest : List (Int64 × Int64)) :
    reachedFrom target before (e :: rest) =
      if target ≤ ofTally (before + e.2.toInt) then some e.1
      else reachedFrom target (before + e.2.toInt) rest := by
  by_cases here : target ≤ ofTally (before + e.2.toInt)
  · cases rest <;> simp [reachedFrom, short, here]
  · let reaches := fun front => decide (target ≤ ofTally (before + e.2.toInt + tally front))
    have shift : ((fun front => decide (target ≤ ofTally (before + tally front))) ∘ (e :: ·)) = reaches := by
      funext front
      rw [Function.comp_apply, tally_cons, ← Int.add_assoc]
    have late : ¬target ≤ ofTally (before + tally []) := by rwa [tally_nil, Int.add_zero]
    have shifted : reachedFrom target before (e :: rest) =
        (rest.inits.find? reaches).bind fun front => (e :: front).getLast?.map (·.1) := by
      rw [reachedFrom, List.inits_cons, List.find?_cons_of_neg (by simpa using late), List.find?_map, shift,
        Option.bind_map]
      rfl
    have onward : reachedFrom target (before + e.2.toInt) rest =
        (rest.inits.find? reaches).bind fun front => front.getLast?.map (·.1) := rfl
    rw [if_neg here, shifted, onward]
    cases first : rest.inits.find? reaches with
    | none => rfl
    | some front =>
      have reached : target ≤ ofTally (before + e.2.toInt + tally front) :=
        of_decide_eq_true (List.find?_some (p := reaches) first)
      cases front with
      | nil =>
        rw [tally_nil, Int.add_zero] at reached
        exact absurd reached here
      | cons e' front => simp [List.getLast?_cons]

/-- A tally reaches a target at one of the terms. -/
theorem mem_of_reachedFrom {counted : List (Int64 × Int64)} {v : Int64}
    (reached : reachedFrom target before counted = some v) : ∃ e ∈ counted, e.1 = v := by
  obtain ⟨front, first, last⟩ := Option.bind_eq_some_iff.1 reached
  obtain ⟨e, final, term⟩ := Option.map_eq_some_iff.1 last
  have start : front <+: counted := (List.mem_inits front counted).1 (List.mem_of_find?_eq_some first)
  exact ⟨e, start.subset (List.mem_of_getLast? final), term⟩

/-- By the time a tally over ascending terms reaches a target it has reached every lesser one. -/
theorem reachedFrom_mono {target' : Float} (order : target ≤ target') {counted : List (Int64 × Int64)}
    (ascending : counted.Pairwise fun a b => a.1 < b.1) (short : ¬target ≤ ofTally before) {v' : Int64}
    (reached : reachedFrom target' before counted = some v') :
    ∃ v, reachedFrom target before counted = some v ∧ v ≤ v' := by
  induction counted generalizing before with
  | nil =>
    rw [reachedFrom_nil] at reached
    cases reached
  | cons e rest ih =>
    rw [List.pairwise_cons] at ascending
    have short' : ¬target' ≤ ofTally before := fun passed => short (float_le_trans order passed)
    rw [reachedFrom_cons short'] at reached
    rw [reachedFrom_cons short]
    by_cases here : target ≤ ofTally (before + e.2.toInt)
    · rw [if_pos here]
      refine ⟨e.1, rfl, ?_⟩
      by_cases here' : target' ≤ ofTally (before + e.2.toInt)
      · rw [if_pos here'] at reached
        exact Int64.le_of_eq (Option.some.inj reached)
      · rw [if_neg here'] at reached
        obtain ⟨later, member, rfl⟩ := mem_of_reachedFrom reached
        exact Int64.le_of_lt (ascending.1 later member)
    · have here' : ¬target' ≤ ofTally (before + e.2.toInt) := fun passed => here (float_le_trans order passed)
      rw [if_neg here'] at reached
      rw [if_neg here]
      exact ih ascending.2 here reached

theorem le_of_getLast? {counted : List (Int64 × Int64)} (ascending : counted.Pairwise fun a b => a.1 < b.1)
    {last : Int64 × Int64} (final : counted.getLast? = some last) : ∀ e ∈ counted, e.1 ≤ last.1 := by
  obtain ⟨front, rfl⟩ := List.getLast?_eq_some_iff.1 final
  intro e member
  rcases List.mem_append.1 member with earlier | here
  · exact Int64.le_of_lt ((List.pairwise_append.1 ascending).2.2 e earlier last List.mem_cons_self)
  · rw [List.mem_singleton.1 here]
    exact Int64.le_refl last.1

/-- Over ascending terms a greater target is not answered by a lesser term, also where the tally reaches
neither. -/
theorem standing_mono {target' : Float} (positive : 0 < target) (order : target ≤ target')
    {counted : List (Int64 × Int64)} (ascending : counted.Pairwise fun a b => a.1 < b.1) :
    standing counted target ≤ standing counted target' := by
  obtain ⟨zeroNumber, number⟩ := isNaN_of_lt positive
  have number' := (isNaN_of_le order).2
  have start : ofTally 0 = 0 := by decide +kernel
  rw [lt_iff zeroNumber number] at positive
  have positive' : 0 < target' := by
    rw [le_iff number number'] at order
    rw [lt_iff zeroNumber number']
    exact Int.lt_of_lt_of_le positive order
  have short : ¬target ≤ ofTally 0 := by
    rw [start, le_iff number zeroNumber, Int.not_le]
    exact positive
  rw [← lt_iff zeroNumber number] at positive
  rw [standing, standing, if_pos positive, if_pos positive']
  cases reached' : reachedFrom target' 0 counted with
  | some v' =>
    obtain ⟨v, reached, before⟩ := reachedFrom_mono order ascending short reached'
    rw [reached]
    exact before
  | none =>
    cases reached : reachedFrom target 0 counted with
    | none => exact Int64.le_refl _
    | some v =>
      obtain ⟨e, member, rfl⟩ := mem_of_reachedFrom reached
      have some := List.getLast?_eq_some_getLast (List.ne_nil_of_mem member)
      rw [some]
      exact le_of_getLast? ascending some e member

end Reached

namespace Tracker

/-- Where counts are not negative and do not overflow, a target that was found stays found and another is
crossed where the tally reaches it. -/
theorem crossing_eq_reachedFrom (target : Float) {counted : List (Int64 × Int64)}
    (nonneg : ∀ e ∈ counted, 0 ≤ e.2.toInt) {before : Int64} (start : 0 ≤ before.toInt)
    (bound : before.toInt + tally counted < 2 ^ 63) (found : Option Int64) :
    crossing target before counted found = (reachedFrom target before.toInt counted).or found := by
  induction counted generalizing before found with
  | nil => simp [crossing]
  | cons e rest ih =>
    obtain ⟨here, others⟩ := List.forall_mem_cons.1 nonneg
    have later := tally_nonneg others
    rw [tally_cons] at bound
    have sum : (before + e.2).toInt = before.toInt + e.2.toInt := by
      apply toInt_add_of_bounded <;> omega
    have order : before ≤ before + e.2 := by
      rw [Int64.le_iff_toInt_le]
      omega
    have onward : 0 ≤ (before + e.2).toInt := by omega
    have step := ih others onward (by omega) (if reaches before (before + e.2) target then some e.1 else found)
    rw [crossing, step]
    by_cases passed : target ≤ ofInt64 before
    · have still := le_ofInt64_of_le order passed
      have waiting := not_lt_of_le_ofInt64 passed
      rw [← ofTally_toInt] at passed still
      simp only [reachedFrom_of_le passed, reachedFrom_of_le still]
      simp [reaches, waiting]
    · have short : ¬target ≤ ofTally before.toInt := by rwa [ofTally_toInt]
      rw [reachedFrom_cons short, ← sum, ofTally_toInt]
      by_cases reached : target ≤ ofInt64 (before + e.2)
      · have waiting := (not_le_ofInt64_iff (isNaN_of_le reached).1 before).1 passed
        have still : target ≤ ofTally (before + e.2).toInt := by rwa [ofTally_toInt]
        rw [reachedFrom_of_le still, if_pos reached]
        simp [reaches, waiting, reached]
      · simp [reaches, reached]

/-- Counted from zero, what is found for a target or else the last term is what the target stands for. -/
theorem getD_crossing {counted : List (Int64 × Int64)} (nonneg : ∀ e ∈ counted, 0 ≤ e.2.toInt)
    (bound : tally counted < 2 ^ 63) (target : Float) :
    (crossing target 0 counted none).getD ((counted.getLast?.map (·.1)).getD 0) =
      standing counted target := by
  have zero : (0 : Int64).toInt = 0 := by decide
  have start : ofTally 0 = 0 := by decide +kernel
  have crossed := crossing_eq_reachedFrom target nonneg (Int.le_of_eq zero.symm) (by omega) none
  rw [crossed, zero, Option.or_none, standing]
  by_cases positive : 0 < target
  · rw [if_pos positive, Option.getD_or]
  · have nothing : reachedFrom target 0 counted = none := by
      cases number : target.isNaN with
      | true => exact reachedFrom_of_isNaN number counted
      | false =>
        apply reachedFrom_of_le
        have zeroNumber : (0 : Float).isNaN = false := by decide +kernel
        rw [lt_iff zeroNumber number, Int.not_lt] at positive
        rw [start, le_iff number zeroNumber]
        exact positive
    simp [nothing, positive]

theorem toInt_count_foldl_see {counted : List (Int64 × Int64)} (nonneg : ∀ e ∈ counted, 0 ≤ e.2.toInt)
    {t : Tracker} (start : 0 ≤ t.count.toInt) (bound : t.count.toInt + tally counted < 2 ^ 63) :
    (counted.foldl (fun t e => t.see e.1 e.2) t).count.toInt = t.count.toInt + tally counted := by
  induction counted generalizing t with
  | nil => simp
  | cons e rest ih =>
    obtain ⟨here, others⟩ := List.forall_mem_cons.1 nonneg
    have later := tally_nonneg others
    rw [tally_cons] at bound ⊢
    have sum : (t.see e.1 e.2).count.toInt = t.count.toInt + e.2.toInt := by
      apply toInt_add_of_bounded <;> omega
    rw [List.foldl_cons, ih others (by omega) (by omega)]
    omega

end Tracker

namespace Crossing

/-- The terms of a group with their counts, in the order they come. -/
def counted (countRef : StatRef) (records : List Record) (group : GroupId) : List (Int64 × Int64) :=
  (records.filter (·.group = group)).filterMap (Record.counted? countRef)

theorem nonneg_counted {countRef : StatRef} {records : List Record}
    (nonneg : ∀ r ∈ records, 0 ≤ round (countRef.read r.stats)) (group : GroupId) :
    ∀ e ∈ counted countRef records group, 0 ≤ e.2.toInt := by
  intro e member
  obtain ⟨r, inGroup, term⟩ := List.mem_filterMap.1 member
  have count := nonneg r (List.mem_of_mem_filter inGroup)
  rw [Int64.le_iff_toInt_le] at count
  cases integer : r.term with
  | text v => simp [Record.counted?, Term.counted?, integer] at term
  | int v =>
    simp [Record.counted?, Term.counted?, integer] at term
    rw [← term]
    exact count

/-- Over integer terms whose counts are not negative and do not overflow, every target of every group is answered
from the records of its group alone. -/
theorem answers_result_eq_standing (countRef : StatRef) {deadline : Deadline}
    (inTime : deadline.missed = false) {records : List Record}
    (integers : ∀ r ∈ records, ∃ v, r.term = .int v)
    (nonneg : ∀ r ∈ records, 0 ≤ round (countRef.read r.stats)) (targets : Table GroupId (List Float))
    (bound : ∀ g, targets.contains g = true → tally (counted countRef records g) < 2 ^ 63) :
    ∃ trackers, (sink countRef).result deadline (records.map .ok) (start targets) = .ok trackers ∧
      answers trackers = targets.map (fun g ts => ts.map (standing (counted countRef records g))) ∧
      ∀ g, (count trackers g).toInt =
        if targets.contains g then tally (counted countRef records g) else 0 := by
  refine ⟨_, result_sink countRef inTime integers (start targets), ?_, ?_⟩
  · apply Table.eq_of_get?
    intro g
    rw [answers, Table.get?_map, get?_foldl_seeRecord, start, Table.get?_map, Table.get?_map]
    cases found : targets.get? g with
    | none => rfl
    | some ts =>
      have short := bound g (Table.contains_of_get? found)
      have answered := Tracker.answers_foldl_see (counted countRef records g) ts
      simp only [Tracker.getD_crossing (nonneg_counted nonneg g) short] at answered
      exact congrArg some answered
  · intro g
    rw [count, get?_foldl_seeRecord, start, Table.get?_map]
    cases found : targets.get? g with
    | none => simp [Table.contains, found]
    | some ts =>
      have live : targets.contains g = true := Table.contains_of_get? found
      have total := Tracker.toInt_count_foldl_see (nonneg_counted nonneg g) (t := .start ts)
        (by simp [Tracker.start]) (by simpa [Tracker.start] using bound g live)
      simpa [live, counted, Tracker.start] using total

/-- Terms of three groups by turns, the last without targets: counts of zero, a half that rounds up, terms that
come twice. -/
def threeGroups : List Record :=
  [⟨"f", .int 10, 1, [0]⟩, ⟨"f", .int 20, 2, [1 / 4]⟩, ⟨"f", .int 5, 1, [2]⟩, ⟨"f", .int 7, 3, [9]⟩,
    ⟨"f", .int 30, 2, [1]⟩, ⟨"f", .int 8, 1, [3 / 2]⟩, ⟨"f", .int 8, 1, [1]⟩, ⟨"f", .int 9, 1, [0]⟩]

/-- Targets in no order, some of them twice, undefined, not positive or too high, and a group that has no
terms. -/
def mixedTargets : Table GroupId (List Float) :=
  .ofList [(1, [3, 0 / 0, 1, 3, -2, 0, 9 / 2, 100]), (2, [1]), (4, [5])]

theorem answers_result_eq_standing_of_threeGroups : Deadline.none.missed = false ∧
    (∀ r ∈ threeGroups, ∃ v, r.term = .int v) ∧
    (∀ r ∈ threeGroups, 0 ≤ round ((StatRef.single ⟨0, 0, 1⟩).read r.stats)) ∧
    (∀ g, mixedTargets.contains g = true →
      tally (counted (.single ⟨0, 0, 1⟩) threeGroups g) < 2 ^ 63) ∧
    ∃ trackers, (sink (.single ⟨0, 0, 1⟩)).result .none (threeGroups.map .ok) (start mixedTargets) =
        .ok trackers ∧
      (answers trackers).toList = [(1, [8, 9, 5, 8, 9, 9, 8, 9]), (2, [30]), (4, [0])] ∧
      (count trackers 1).toInt = 5 ∧ (count trackers 3).toInt = 0 := by
  have integers : ∀ r ∈ threeGroups, ∃ v, r.term = .int v := by
    simp [threeGroups]
  have nonneg : ∀ r ∈ threeGroups, 0 ≤ round ((StatRef.single ⟨0, 0, 1⟩).read r.stats) := by
    decide +kernel
  have bound : ∀ g, mixedTargets.contains g = true →
      tally (counted (.single ⟨0, 0, 1⟩) threeGroups g) < 2 ^ 63 := by
    have each : ∀ g ∈ mixedTargets.keys,
        tally (counted (.single ⟨0, 0, 1⟩) threeGroups g) < 2 ^ 63 := by decide +kernel
    intro g live
    obtain ⟨ts, found⟩ := Option.isSome_iff_exists.1 live
    exact each g ((mixedTargets.mem_keys_iff g).2 ⟨ts, found⟩)
  have inTime : Deadline.none.missed = false := rfl
  obtain ⟨trackers, done, answered, counts⟩ := answers_result_eq_standing (.single ⟨0, 0, 1⟩)
    inTime integers nonneg mixedTargets bound
  refine ⟨inTime, integers, nonneg, bound, trackers, done, ?_, ?_, ?_⟩
  · rw [answered]
    decide +kernel
  · rw [counts]
    decide +kernel
  · rw [counts]
    decide +kernel

end Crossing
end Rollup
