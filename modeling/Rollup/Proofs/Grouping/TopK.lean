import Rollup.Proofs.Grouping.Measure
import Rollup.Proofs.Ranking
import Rollup.Proofs.Session.Scores
import Rollup.Proofs.Stream.Best

namespace Rollup
open Number Number.Binary64

theorem map_eq_map_iff_of_injective_on {α β : Type} {f : α → β} {l l' : List α}
    (injective : ∀ a ∈ l, ∀ b ∈ l', f a = f b → a = b) : l.map f = l'.map f ↔ l = l' := by
  constructor
  · intro same
    induction l generalizing l' with
    | nil => exact (List.map_eq_nil_iff.1 same.symm).symm
    | cons a rest ih =>
      cases l' with
      | nil => cases same
      | cons b rest' =>
        rw [List.map_cons, List.map_cons, List.cons.injEq] at same
        have first : a = b := injective a List.mem_cons_self b List.mem_cons_self same.1
        have others : rest = rest' := by
          apply ih _ same.2
          intro c cMember d dMember
          exact injective c (List.mem_cons_of_mem a cMember) d (List.mem_cons_of_mem b dMember)
        rw [first, others]
  · intro same
    rw [same]

/-- Lists of extensions of keys are the same exactly when the extensions are, if they are as many under
each key. -/
theorem flatMap_child_eq_iff {l : List (GroupId × Key)} {f g : GroupId → List Term}
    (length : ∀ e ∈ l, (f e.1).length = (g e.1).length) :
    ((l.flatMap fun e => (f e.1).map e.2.child) = l.flatMap fun e => (g e.1).map e.2.child) ↔
      ∀ e ∈ l, f e.1 = g e.1 := by
  induction l with
  | nil => simp
  | cons e rest ih =>
    have here : ((f e.1).map e.2.child).length = ((g e.1).map e.2.child).length := by
      rw [List.length_map, List.length_map]
      exact length e List.mem_cons_self
    have later := ih fun e' member => length e' (List.mem_cons_of_mem e member)
    have injective : (f e.1).map e.2.child = (g e.1).map e.2.child ↔ f e.1 = g e.1 := by
      apply map_eq_map_iff_of_injective_on
      intro t _ u _ same
      exact (Key.child.inj same).2
    rw [List.flatMap_cons, List.flatMap_cons, List.forall_mem_cons, ← injective, ← later]
    constructor
    · intro same
      exact List.append_inj same here
    · intro same
      rw [same.1, same.2]

namespace Session.Scored

/-- Whether one score comes no later than another by its value, for which the two zeros are one. -/
def ahead (bottom : Bool) (a b : Scored) : Bool :=
  if bottom then a.score ≤ b.score else b.score ≤ a.score

/-- The best `k` by value; those of equal value stay in term order. -/
def leaders (k : Nat) (bottom : Bool) (terms : List Scored) : List Scored :=
  (stableSort (ahead bottom) terms).take k

/-- Two zeros of which the total order puts the second one first. -/
def Upset (bottom : Bool) (a b : Scored) : Prop :=
  if bottom then a.score = 0 ∧ b.score = -0 else a.score = -0 ∧ b.score = 0

/-- The order of values, for which it does not matter whether they are numbers. -/
def byLevel (bottom : Bool) (a b : Scored) : Bool :=
  if bottom then level a.score ≤ level b.score else level b.score ≤ level a.score

theorem byLevel_trans (bottom : Bool) (a b c : Scored) (first : byLevel bottom a b)
    (second : byLevel bottom b c) : byLevel bottom a c := by
  cases bottom with
  | true =>
    simp [byLevel] at *
    omega
  | false =>
    simp [byLevel] at *
    omega

theorem byLevel_total (bottom : Bool) (a b : Scored) :
    (byLevel bottom a b || byLevel bottom b a) = true := by
  cases bottom with
  | true =>
    simp [byLevel]
    omega
  | false =>
    simp [byLevel]
    omega

/-- The order of a split is that of values, zeros of different sign apart. -/
theorem le_iff (bottom : Bool) (a b : Scored) :
    Scored.le bottom a b = true ↔ byLevel bottom a b = true ∧ ¬Upset bottom a b := by
  cases bottom with
  | true =>
    have order := totalLe_iff a.score b.score
    simpa [Scored.le, byLevel, Upset] using order
  | false =>
    have order := totalLe_iff b.score a.score
    rw [And.comm (a := b.score = 0)] at order
    simpa [Scored.le, byLevel, Upset] using order

theorem byLevel_of_upset {bottom : Bool} {a b : Scored} (upset : Upset bottom a b) :
    byLevel bottom a b = true ∧ byLevel bottom b a = true := by
  have number : (0 : Float).isNaN = false ∧ (-0 : Float).isNaN = false := by decide +kernel
  have forth : level 0 ≤ level (-0) := (rankLe_iff number.1 number.2).1 rankLe_zeros.1
  have back : level (-0) ≤ level 0 := (rankLe_iff number.2 number.1).1 rankLe_zeros.2
  cases bottom with
  | true =>
    obtain ⟨aZero, bZero⟩ : a.score = 0 ∧ b.score = -0 := upset
    simp [byLevel, aZero, bZero, forth, back]
  | false =>
    obtain ⟨aZero, bZero⟩ : a.score = -0 ∧ b.score = 0 := upset
    simp [byLevel, aZero, bZero, forth, back]

section Numbers
variable {a b : Scored} (aNumber : a.score.isNaN = false) (bNumber : b.score.isNaN = false)

include aNumber bNumber in
theorem ahead_eq (bottom : Bool) : ahead bottom a b = byLevel bottom a b := by
  cases bottom with
  | true => simp [ahead, byLevel, Binary64.le_iff aNumber bNumber]
  | false => simp [ahead, byLevel, Binary64.le_iff bNumber aNumber]

include aNumber bNumber in
/-- Ranks compare like the values that they are made from. -/
theorem rankLe_eq (bottom : Bool) :
    Order.rankLe (if bottom then a.score else -a.score) (if bottom then b.score else -b.score) =
      ahead bottom a b := by
  rw [ahead_eq aNumber bNumber, Bool.eq_iff_iff]
  cases bottom with
  | true => simp [Binary64.rankLe_iff aNumber bNumber, byLevel]
  | false =>
    simp [Binary64.rankLe_iff (isNaN_neg aNumber) (isNaN_neg bNumber), byLevel, level_neg aNumber,
      level_neg bNumber]

end Numbers

section Choice
variable {terms : List Scored} (numbers : ∀ a ∈ terms, a.score.isNaN = false)

include numbers in
theorem leaders_eq (k : Nat) (bottom : Bool) :
    leaders k bottom terms = (stableSort (byLevel bottom) terms).take k := by
  rw [leaders]
  congr 1
  apply stableSort_congr
  intro a aMember b bMember
  exact ahead_eq (numbers a aMember) (numbers b bMember) bottom

include numbers in
/-- A split chooses the leading terms exactly when none of them is upset by a later term. -/
theorem best_eq_leaders_iff (ordered : terms.Pairwise fun a b => compare a.term b.term = .lt) (k : Nat)
    (bottom : Bool) :
    Scored.best k bottom terms = (leaders k bottom terms).map (·.term) ↔
      ∀ a ∈ leaders k bottom terms, ∀ b ∈ terms, compare a.term b.term = .lt → ¬Upset bottom a b := by
  have refines : ∀ a b, Scored.le bottom a b = true → byLevel bottom a b = true :=
    fun a b before => ((le_iff bottom a b).1 before).1
  have asymmetric : ∀ a b : Scored, compare a.term b.term = .lt → ¬compare b.term a.term = .lt :=
    fun a b before after => Table.irrefl_lt a.term (Std.TransCmp.lt_trans before after)
  have distinct : ∀ a ∈ (stableSort (Scored.le bottom) terms).take k,
      ∀ b ∈ (stableSort (byLevel bottom) terms).take k, a.term = b.term → a = b := by
    intro a aKept b bKept same
    have aMember := (stableSort_perm _ terms).mem_iff.1 (List.mem_of_mem_take aKept)
    have bMember := (stableSort_perm _ terms).mem_iff.1 (List.mem_of_mem_take bKept)
    have nodup : (terms.map (·.term)).Nodup := by
      rw [List.Nodup, List.pairwise_map]
      refine ordered.imp ?_
      intro c d before equal
      exact Table.irrefl_lt d.term (equal ▸ before)
    exact List.inj_on_of_nodup_map nodup aMember bMember same
  rw [leaders_eq numbers, Scored.best, map_eq_map_iff_of_injective_on distinct,
    take_stableSort_eq_iff refines (le_trans bottom) (le_total bottom) (byLevel_trans bottom)
      (byLevel_total bottom) asymmetric k ordered]
  constructor
  · intro agree a aKept b bMember later upset
    obtain ⟨forth, back⟩ := byLevel_of_upset upset
    exact ((le_iff bottom a b).1 (agree a aKept b bMember later forth back)).2 upset
  · intro quiet a aKept b bMember later forth _
    exact (le_iff bottom a b).2 ⟨forth, quiet a aKept b bMember later⟩

end Choice

theorem length_best (k : Nat) (bottom : Bool) (terms : List Scored) :
    (Scored.best k bottom terms).length = ((leaders k bottom terms).map (·.term)).length := by
  rw [Scored.best, leaders, List.length_map, List.length_map, List.length_take, List.length_take,
    (stableSort_perm _ terms).length_eq, (stableSort_perm _ terms).length_eq]

end Session.Scored

namespace FieldGrouping
variable {g : FieldGrouping} {k : Nat} {s : Session} {keys : KeyMap} {deadline : Deadline}

theorem topK_ne_zero (top : g.mode = .topK k) : k ≠ 0 := by
  unfold mode at top
  by_cases positive : 0 < g.topK
  · rw [if_pos positive] at top
    cases top
    exact Nat.ne_of_gt positive
  · rw [if_neg positive] at top
    split at top <;> cases top

/-- The selection that a listing makes once the sort statistic is pushed. -/
def selection (g : FieldGrouping) (k : Nat) (keys : KeyMap) (refs : List StatRef) (s : Session) :
    Selection :=
  ⟨k, g.bottom, (s.stack.push g.sortStat.shape).1, refs, keys⟩

/-- The terms that are kept of a group are its leading ones. -/
theorem terms_leading (inStep : s.InStep) (k : Nat) (refs : List StatRef) (group : GroupId) :
    ((g.selection k keys refs s).leading group ((s.pushed g.sortStat).fieldRecords g.field)).map (·.term) =
      (Session.Scored.leaders k g.bottom (s.scored g.field g.sortStat group)).map (·.term) := by
  let totals := ((s.pushed g.sortStat).cellTotals g.field).toList.filter (·.1.group = group)
  let toRecord (e : Cell × List Float) : Record := ⟨g.field.name, e.1.term, e.1.group, e.2⟩
  let toScored (e : Cell × List Float) : Session.Scored :=
    ⟨(s.stack.push g.sortStat.shape).1.read e.2, e.1.term⟩
  have records : ((s.pushed g.sortStat).fieldRecords g.field).filter (·.group = group) =
      totals.map toRecord := by
    rw [Session.fieldRecords, List.filter_map]
    rfl
  have scored : s.scored g.field g.sortStat group = totals.map toScored := by
    have made := Session.map_cellTotals_pushed inStep g.field g.sortStat group Session.Scored.mk
    rw [List.map_id'' fun a => rfl] at made
    exact made.symm
  have numbers : ∀ e ∈ totals, (toScored e).score.isNaN = false := by
    intro e member
    apply s.isNaN_scored g.field g.sortStat group
    rw [scored]
    exact List.mem_map_of_mem member
  have same : stableSort (fun a b => (g.selection k keys refs s).noLater (toRecord a) (toRecord b)) totals =
      stableSort (fun a b => Session.Scored.ahead g.bottom (toScored a) (toScored b)) totals := by
    apply stableSort_congr
    intro a aMember b bMember
    rw [← Selection.rankLe_candidate _ _ _ 0 0]
    exact Session.Scored.rankLe_eq (numbers a aMember) (numbers b bMember) g.bottom
  rw [Selection.leading, records, stableSort_map, same, Session.Scored.leaders, scored, stableSort_map,
    List.map_take, List.map_take, List.map_map, List.map_map]
  rfl

/-- A listing has a row for each leading term, group by group. -/
theorem keys_of_on_collect (top : g.mode = .topK k) (inStep : s.InStep) (sound : s.failAfter = none)
    (built : g.sortStat.Built) {tokens : List Token} (compiled : g.sortStat.compile s.scope = .ok tokens)
    (inTime : deadline.missed = false) (keys : KeyMap) (refs : List StatRef) :
    ∃ (rows : List ResultRow) (t : Session), (g.collect keys refs deadline).on s = (.ok (rows.map .ok), t) ∧
      rows.map (·.key) = keys.toList.flatMap fun e =>
        ((Session.Scored.leaders k g.bottom (s.scored g.field g.sortStat e.1)).map (·.term)).map
          e.2.child := by
  unfold collect
  by_cases empty : keys.isEmpty = true
  · have nobody : keys.toList = [] := List.isEmpty_iff.1 empty
    rw [if_pos empty, nobody]
    exact ⟨[], s, rfl, rfl⟩
  · rw [if_neg empty, top]
    have pushedSound : (s.pushed g.sortStat).failAfter = none := sound
    let sel := g.selection k keys refs s
    let records := (s.pushed g.sortStat).fieldRecords g.field
    have filled : sel.sink.result deadline ((s.pushed g.sortStat).stream [g.field]) .empty =
        .ok (records.foldl (fun board r => sel.offer r board) .empty) := by
      rw [Session.stream_of_failAfter pushedSound, Selection.sink, Sink.result_collecting _ inTime]
    have collected : (g.collectTopK k keys refs deadline).on s =
        (.ok (sel.rows (records.foldl (fun board r => sel.offer r board) .empty)),
          s.restamped g.sortStat.width) := by
      rw [collectTopK_eq]
      exact Session.on_measure_eq_ok_iff.2 ⟨_, _, Session.on_push inStep built compiled,
        Outcome.map_eq_ok_iff.2 ⟨_, filled, rfl⟩, Session.on_pop_pushed inStep _⟩
    refine ⟨_, _, Action.on_bind_ok collected, ?_⟩
    rw [Selection.keys_rows (topK_ne_zero top)]
    apply List.flatMap_congr
    intro e _
    rw [terms_leading inStep k refs e.1]

/-- A split by the best terms yields the keys of the listing in its order exactly when no leading term of
value zero comes before one whose zero has the other sign and is better in the total order. -/
theorem regroup_eq_collect_iff (top : g.mode = .topK k) (inStep : s.InStep) (sound : s.failAfter = none)
    (built : g.sortStat.Built) {s' : Session} {children : KeyMap}
    (regrouped : (g.regroup keys).on s = (.ok children, s')) (inTime : deadline.missed = false)
    (refs : List StatRef) :
    ∃ (rows : List ResultRow) (t : Session), (g.collect keys refs deadline).on s = (.ok (rows.map .ok), t) ∧
      (children.values = rows.map (·.key) ↔
        ∀ group, keys.contains group = true →
          ∀ a ∈ Session.Scored.leaders k g.bottom (s.scored g.field g.sortStat group),
            ∀ b ∈ s.scored g.field g.sortStat group,
              compare a.term b.term = .lt → ¬Session.Scored.Upset g.bottom a b) := by
  have split : (Session.splitTopK g.field keys k g.sortStat g.bottom).on s = (.ok children, s') := by
    rw [regroup, top] at regrouped
    exact regrouped
  obtain ⟨⟨tokens, compiled⟩, values⟩ := Session.values_of_on_splitTopK inStep built split
  obtain ⟨rows, t, collected, rowKeys⟩ := keys_of_on_collect top inStep sound built compiled inTime keys refs
  refine ⟨rows, t, collected, ?_⟩
  rw [values, rowKeys]
  rw [flatMap_child_eq_iff
    (f := fun group => Session.Scored.best k g.bottom (s.scored g.field g.sortStat group))
    (g := fun group =>
      (Session.Scored.leaders k g.bottom (s.scored g.field g.sortStat group)).map (·.term))
    fun e _ => Session.Scored.length_best k g.bottom _]
  have each (group : GroupId) := Session.Scored.best_eq_leaders_iff
    (s.isNaN_scored g.field g.sortStat group) (s.pairwise_scored g.field g.sortStat group) k g.bottom
  constructor
  · intro same group live
    obtain ⟨key, found⟩ := Option.isSome_iff_exists.1 live
    exact (each group).1 (same (group, key) ((keys.mem_toList_iff group key).2 found))
  · intro quiet e member
    have live : keys.contains e.1 = true := by
      rw [Table.contains, (keys.mem_toList_iff e.1 e.2).1 member]
      rfl
    exact (each e.1).2 (quiet e.1 live)

/-- Two documents that score zeros of different sign, the worse one of the earlier term. -/
def opposed : Session :=
  .new 0 [⟨[("t", .text "a"), ("x", .int 0), ("y", .int 5)]⟩,
    ⟨[("t", .text "b"), ("x", .int 0), ("y", .int (-5))]⟩] .standard

def worstByProduct : FieldGrouping :=
  ⟨⟨"t", .text⟩, 1, .combination .multiply (.intField "x") (.intField "y"), true, false⟩

theorem regroup_eq_collect_iff_of_opposed : worstByProduct.mode = .topK 1 ∧ opposed.InStep ∧
    opposed.failAfter = none ∧ worstByProduct.sortStat.Built ∧ Deadline.none.missed = false ∧
    ∃ (children : KeyMap) (s' : Session),
      (worstByProduct.regroup .initial).on opposed = (.ok children, s') ∧
        ∃ (rows : List ResultRow) (t : Session),
          (worstByProduct.collect .initial [] .none).on opposed = (.ok (rows.map .ok), t) ∧
            children.values ≠ rows.map (·.key) := by
  have inStep : opposed.InStep := ⟨rfl, by decide⟩
  have built : worstByProduct.sortStat.Built := .combination (.intField "x") (.intField "y") rfl
  have splits : ∃ children s', (worstByProduct.regroup .initial).on opposed = (.ok children, s') :=
    ⟨_, _, rfl⟩
  obtain ⟨children, s', regrouped⟩ := splits
  have top : worstByProduct.mode = .topK 1 := rfl
  have inTime : Deadline.none.missed = false := rfl
  obtain ⟨rows, t, collected, agree⟩ := regroup_eq_collect_iff top inStep rfl built regrouped inTime []
  refine ⟨top, inStep, rfl, built, inTime, children, s', regrouped, rows, t, collected, ?_⟩
  intro same
  have scored : opposed.scored worstByProduct.field worstByProduct.sortStat 1 =
      [⟨0, .text "a"⟩, ⟨-0, .text "b"⟩] := rfl
  have leading : Session.Scored.leaders 1 true [⟨0, .text "a"⟩, ⟨-0, .text "b"⟩] =
      [⟨0, .text "a"⟩] := rfl
  have quiet := agree.1 same 1 rfl
  rw [scored, show worstByProduct.bottom = true from rfl, leading] at quiet
  exact quiet ⟨0, .text "a"⟩ (by simp) ⟨-0, .text "b"⟩ (by simp) rfl ⟨rfl, rfl⟩

end FieldGrouping
end Rollup
