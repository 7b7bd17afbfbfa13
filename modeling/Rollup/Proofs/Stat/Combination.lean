import Rollup.Proofs.Stat.Evaluation

namespace Rollup.Stat
open Outcome

/-- The statistics that one is directly made of, from left to right. -/
def operands : Stat → List Stat
  | operation _ operands => operands
  | combination _ left right => [left, right]
  | exponential inner => [inner]
  | absolute inner => [inner]
  | cached inner => [inner]
  | _ => []

mutual
/-- A statistic and all below it, in reading order. -/
def parts : Stat → List Stat
  | operation op operands => operation op operands :: partsOf operands
  | combination op left right => combination op left right :: (parts left ++ parts right)
  | exponential inner => exponential inner :: parts inner
  | absolute inner => absolute inner :: parts inner
  | cached inner => cached inner :: parts inner
  | s => [s]

def partsOf : List Stat → List Stat
  | [] => []
  | s :: rest => parts s ++ partsOf rest
end

/-- The operator of a combination. -/
def combinedBy? : Stat → Option AggregateOp
  | combination op _ _ => some op
  | _ => none

/-- Whether a statistic works on the values of its operands one document at a time, or on their totals. -/
def combines : Stat → Bool
  | operation _ _ => true
  | combination _ _ _ => true
  | _ => false

/-- A value, unless a combination was found where none may be. -/
def unlessFound {α : Type} (found : Option AggregateOp) (a : α) : Except Fault α :=
  match found with
  | some op => .error (.aggregateOperand op)
  | none => .ok a

/-- A statistic, unless a combination is below it: then the first one in reading order is at fault. -/
def guarded (s : Stat) : Except Fault Stat :=
  unlessFound ((s.operands.flatMap parts).findSome? combinedBy?) s

/-- A statistic inside unary forms only. -/
inductive Encased (c : Stat) : Stat → Prop where
  | bare : Encased c c
  | exponential {inner : Stat} (below : Encased c inner) : Encased c (.exponential inner)
  | absolute {inner : Stat} (below : Encased c inner) : Encased c (.absolute inner)
  | cached {inner : Stat} (below : Encased c inner) : Encased c (.cached inner)

/-- The statistics that are built through the checks only. -/
inductive Checked : Stat → Prop where
  | intField (name : String) : Checked (.intField name)
  | metric (handle : MetricHandle) : Checked (.metric handle)
  | operation {op : StatOp} {operands : List Stat} {s : Stat} (parts : ∀ o ∈ operands, Checked o)
      (checked : Stat.operation? op operands = .ok s) : Checked s
  | combination {op : AggregateOp} {left right s : Stat} (leftChecked : Checked left)
      (rightChecked : Checked right) (checked : Stat.combine? op left right = .ok s) : Checked s
  | constant (value : Int64) : Checked (.constant value)
  | exponential {inner s : Stat} (part : Checked inner) (checked : Stat.exponential? inner = .ok s) :
      Checked s
  | absolute {inner s : Stat} (part : Checked inner) (checked : Stat.absolute? inner = .ok s) : Checked s
  | cached {inner s : Stat} (part : Checked inner) (checked : Stat.cached? inner = .ok s) : Checked s
  | hasInt (field : String) (value : Int64) : Checked (.hasInt field value)
  | hasText (field value : String) : Checked (.hasText field value)
  | slot (ref : SlotRef) : Checked (.slot ref)
  | count : Checked .count
  | floatScale (field : String) (mult add : Int64) : Checked (.floatScale field mult add)

theorem sizeOf_lt_of_mem_operands {o s : Stat} (member : o ∈ s.operands) : sizeOf o < sizeOf s := by
  cases s with
  | operation op operands =>
    have inside : sizeOf o < sizeOf operands := List.sizeOf_lt_of_mem member
    simp only [operation.sizeOf_spec]
    omega
  | combination op left right =>
    simp only [operands, List.mem_cons, List.not_mem_nil, or_false] at member
    rcases member with rfl | rfl
    · simp only [combination.sizeOf_spec]
      omega
    · simp only [combination.sizeOf_spec]
      omega
  | _ => simp_all [operands]

theorem operands_induction {P : Stat → Prop} (step : ∀ s, (∀ o ∈ s.operands, P o) → P s) (s : Stat) :
    P s :=
  step s fun o _ => operands_induction step o
termination_by s
decreasing_by
  apply sizeOf_lt_of_mem_operands
  assumption

theorem partsOf_eq_flatMap (l : List Stat) : partsOf l = l.flatMap parts := by
  induction l with
  | nil => rfl
  | cons s rest ih => simp [partsOf, ih]

theorem parts_eq (s : Stat) : s.parts = s :: s.operands.flatMap parts := by
  cases s <;> simp [parts, operands, partsOf_eq_flatMap]

theorem mem_parts_iff {p s : Stat} : p ∈ s.parts ↔ p = s ∨ ∃ o ∈ s.operands, p ∈ o.parts := by
  simp [s.parts_eq]

theorem isCombination_eq (s : Stat) : s.isCombination = s.combinedBy?.isSome := by
  cases s <;> rfl

theorem firstCombinationOf?_eq {l : List Stat}
    (each : ∀ s ∈ l, s.firstCombination? = s.parts.findSome? combinedBy?) :
    firstCombinationOf? l = (l.flatMap parts).findSome? combinedBy? := by
  induction l with
  | nil => rfl
  | cons s rest ih =>
    have here := each s List.mem_cons_self
    have later := ih fun o member => each o (List.mem_cons_of_mem s member)
    rw [firstCombinationOf?, here, later, List.flatMap_cons, List.findSome?_append]
    cases s.parts.findSome? combinedBy? <;> rfl

/-- The first combination is found in reading order. -/
theorem firstCombination?_eq (s : Stat) : s.firstCombination? = s.parts.findSome? combinedBy? := by
  induction s using operands_induction with
  | step s each =>
    have below := firstCombinationOf?_eq each
    rw [parts_eq, List.findSome?_cons]
    cases s with
    | operation op operands => exact below
    | combination op left right => rfl
    | exponential inner => simp [firstCombination?, combinedBy?, operands, each inner List.mem_cons_self]
    | absolute inner => simp [firstCombination?, combinedBy?, operands, each inner List.mem_cons_self]
    | cached inner => simp [firstCombination?, combinedBy?, operands, each inner List.mem_cons_self]
    | _ => rfl

theorem firstCombination?_eq_none_iff (s : Stat) :
    s.firstCombination? = none ↔ ∀ c ∈ s.parts, c.isCombination = false := by
  simp [firstCombination?_eq, List.findSome?_eq_none_iff, isCombination_eq]

theorem firstCombination?_eq_none_of_operands {s : Stat}
    (plain : ∀ o ∈ s.operands, o.firstCombination? = none) (apart : s.isCombination = false) :
    s.firstCombination? = none := by
  rw [firstCombination?_eq_none_iff]
  intro c member
  rcases mem_parts_iff.1 member with rfl | ⟨o, operand, inside⟩
  · exact apart
  · exact (firstCombination?_eq_none_iff o).1 (plain o operand) c inside

theorem rejectCombination_eq (s : Stat) :
    s.rejectCombination = unlessFound (s.parts.findSome? combinedBy?) () := by
  rw [rejectCombination, firstCombination?_eq]
  cases s.parts.findSome? combinedBy? <;> rfl

/-- One check after the other stops at the first combination in all that is looked at. -/
theorem forM_rejectCombination (l : List Stat) :
    l.forM rejectCombination = unlessFound ((l.flatMap parts).findSome? combinedBy?) () := by
  induction l with
  | nil => rfl
  | cons s rest ih =>
    show (s.rejectCombination >>= fun _ => rest.forM rejectCombination) = _
    rw [List.flatMap_cons, List.findSome?_append, rejectCombination_eq]
    cases s.parts.findSome? combinedBy? with
    | none => exact ih
    | some op => rfl

/-- A statistic is built after one check for each operand. -/
theorem guarded_eq (s : Stat) : s.guarded = s.operands.forM rejectCombination >>= fun _ => .ok s := by
  rw [forM_rejectCombination, guarded]
  cases (s.operands.flatMap parts).findSome? combinedBy? <;> rfl

theorem operation?_eq (op : StatOp) {l : List Stat} (nonempty : l ≠ []) :
    operation? op l = (operation op l).guarded := by
  have listed : l.isEmpty = false := by simpa using nonempty
  rw [operation?, listed, guarded_eq]
  rfl

theorem combine?_eq (op : AggregateOp) (left right : Stat) :
    combine? op left right = (combination op left right).guarded := by
  simp only [guarded_eq, operands, List.forM_eq_forM, List.forM_cons, List.forM_nil, bind_assoc, pure_bind]
  rfl

theorem guarded_unary {inner s : Stat} (only : s.operands = [inner]) :
    (do inner.rejectCombination; return s) = s.guarded := by
  simp only [guarded_eq, only, List.forM_eq_forM, List.forM_cons, List.forM_nil, bind_assoc, pure_bind]
  rfl

theorem exponential?_eq (inner : Stat) : exponential? inner = (exponential inner).guarded :=
  guarded_unary rfl

theorem absolute?_eq (inner : Stat) : absolute? inner = (absolute inner).guarded := guarded_unary rfl

theorem cached?_eq (inner : Stat) : cached? inner = (cached inner).guarded := guarded_unary rfl

/-- A check lets a statistic through as it is, or not at all. -/
theorem guarded_eq_ok_iff {s r : Stat} :
    s.guarded = .ok r ↔ (∀ o ∈ s.operands, o.firstCombination? = none) ∧ r = s := by
  rw [guarded_eq, check_bind_eq_ok_iff, forM_eq_ok_iff, Except.ok.injEq, eq_comm (a := s)]
  simp only [rejectCombination_eq_ok_iff]

theorem guarded_eq_error_iff (s : Stat) :
    (∃ op, s.guarded = .error (.aggregateOperand op)) ↔
      ∃ o ∈ s.operands, ∃ c ∈ o.parts, c.isCombination = true := by
  have found : (∃ op, s.guarded = .error (.aggregateOperand op)) ↔
      ((s.operands.flatMap parts).findSome? combinedBy?).isSome := by
    rw [guarded]
    cases (s.operands.flatMap parts).findSome? combinedBy? <;> simp [unlessFound]
  rw [found, List.isSome_findSome?, List.any_flatMap]
  simp [isCombination_eq]

namespace Built
variable {s : Stat}

/-- What works on the values of its operands was let through by a check. -/
theorem plain (built : s.Built) (combines : s.combines = true) :
    ∀ o ∈ s.operands, o.firstCombination? = none := by
  cases built with
  | operation _ checked =>
    obtain ⟨_, plain, rfl⟩ := operation?_eq_ok_iff.1 checked
    exact plain
  | combination _ _ checked =>
    obtain ⟨left, right, rfl⟩ := combine?_eq_ok_iff.1 checked
    simp [operands, left, right]
  | _ => cases combines

theorem operand (built : s.Built) : ∀ o ∈ s.operands, o.Built := by
  cases built with
  | operation parts checked =>
    obtain ⟨_, _, rfl⟩ := operation?_eq_ok_iff.1 checked
    exact parts
  | combination leftBuilt rightBuilt checked =>
    obtain ⟨_, _, rfl⟩ := combine?_eq_ok_iff.1 checked
    simp [operands, leftBuilt, rightBuilt]
  | exponential part => simp [operands, part]
  | absolute part => simp [operands, part]
  | cached part => simp [operands, part]
  | _ => simp [operands]

theorem part (built : s.Built) : ∀ p ∈ s.parts, p.Built := by
  induction s using operands_induction with
  | step s below =>
    intro p member
    rcases mem_parts_iff.1 member with rfl | ⟨o, operand, inside⟩
    · exact built
    · exact below o operand (built.operand o operand) p inside

/-- Every form around a combination is unary, for the others refuse it. -/
theorem encased (built : s.Built) : ∀ c ∈ s.parts, c.isCombination = true → Encased c s := by
  induction s using operands_induction with
  | step s below =>
    intro c member combined
    rcases mem_parts_iff.1 member with rfl | ⟨o, operand, inside⟩
    · exact .bare
    · have inner := below o operand (built.operand o operand) c inside combined
      have unary : s.combines = false := by
        by_contra combines
        have plain := built.plain (Bool.not_eq_false _ ▸ combines) o operand
        rw [firstCombination?_eq_none_iff] at plain
        simp [plain c inside] at combined
      cases s with
      | exponential =>
        simp [operands] at operand
        exact .exponential (operand ▸ inner)
      | absolute =>
        simp [operands] at operand
        exact .absolute (operand ▸ inner)
      | cached =>
        simp [operands] at operand
        exact .cached (operand ▸ inner)
      | operation => cases unary
      | combination => cases unary
      | _ => simp [operands] at operand

end Built

theorem exists_error_of_compileAll {scope : Scope} {l : List Stat} {e : Fault}
    (failed : compileAll scope l = .error e) : ∃ s ∈ l, compile scope s = .error e := by
  induction l with
  | nil => cases failed
  | cons s rest ih =>
    rw [compileAll, bind_eq_error_iff] at failed
    rcases failed with here | ⟨code, -, failed⟩
    · exact ⟨s, List.mem_cons_self, here⟩
    · rw [bind_eq_error_iff] at failed
      rcases failed with later | ⟨codes, -, failed⟩
      · obtain ⟨o, member, found⟩ := ih later
        exact ⟨o, List.mem_cons_of_mem s member, found⟩
      · cases failed

theorem exists_compile_of_operand {scope : Scope} {s o : Stat} {tokens : List Token}
    (compiled : s.compile scope = .ok tokens) (member : o ∈ s.operands) :
    ∃ code, o.compile scope = .ok code := by
  cases s with
  | operation op operands =>
    obtain ⟨codes, each, -⟩ := bind_eq_ok_iff.1 compiled
    obtain ⟨code, -, here⟩ := exists_mem_of_forall₂ (compileAll_eq_ok each).flip member
    exact ⟨code, here⟩
  | combination op left right =>
    obtain ⟨leftCode, leftHere, rest⟩ := bind_eq_ok_iff.1 compiled
    obtain ⟨rightCode, rightHere, -⟩ := bind_eq_ok_iff.1 rest
    rcases List.mem_pair.1 member with rfl | rfl
    · exact ⟨leftCode, leftHere⟩
    · exact ⟨rightCode, rightHere⟩
  | exponential inner =>
    obtain ⟨-, code, here, -⟩ := compile_unary_eq_ok_iff.1 compiled
    exact ⟨code, List.mem_singleton.1 member ▸ here⟩
  | absolute inner =>
    obtain ⟨-, code, here, -⟩ := compile_unary_eq_ok_iff.1 compiled
    exact ⟨code, List.mem_singleton.1 member ▸ here⟩
  | cached inner =>
    obtain ⟨-, code, here, -⟩ := compile_unary_eq_ok_iff.1 compiled
    exact ⟨code, List.mem_singleton.1 member ▸ here⟩
  | _ => cases member

/-- What compiles does so in all its parts. -/
theorem exists_compile_of_part {scope : Scope} {s p : Stat} {tokens : List Token}
    (compiled : s.compile scope = .ok tokens) (member : p ∈ s.parts) :
    ∃ code, p.compile scope = .ok code := by
  induction s using operands_induction generalizing tokens with
  | step s below =>
    rcases mem_parts_iff.1 member with rfl | ⟨o, operand, inside⟩
    · exact ⟨tokens, compiled⟩
    · obtain ⟨code, here⟩ := exists_compile_of_operand compiled operand
      exact below o operand here inside

/-- A unary form fails by its check or, past it, as its operand does. -/
theorem compile_unary_eq_error_iff {scope : Scope} {inner : Stat} {t : Token} {e : Fault} :
    (do inner.rejectCombination; let code ← compile scope inner; return code ++ [t]) = Except.error e ↔
      inner.rejectCombination = .error e ∨
        inner.rejectCombination = .ok () ∧ compile scope inner = .error e := by
  have unit : (∃ x, inner.rejectCombination = .ok x) ↔ inner.rejectCombination = .ok () :=
    ⟨fun ⟨_, passed⟩ => passed, fun passed => ⟨(), passed⟩⟩
  simp [bind_eq_error_iff, pure, Except.pure, unit]

/-- Without combinations compilation fails for other reasons only. -/
theorem compile_ne_of_plain {scope : Scope} {op : AggregateOp} {s : Stat}
    (plain : s.firstCombination? = none) : s.compile scope ≠ .error (.aggregateOperand op) := by
  induction s using operands_induction with
  | step s below =>
    have operands_ne : ∀ o ∈ s.operands, o.compile scope ≠ .error (.aggregateOperand op) := by
      intro o operand
      apply below o operand
      rw [firstCombination?_eq_none_iff] at plain ⊢
      exact fun c inside => plain c (mem_parts_iff.2 (.inr ⟨o, operand, inside⟩))
    have unary (inner : Stat) (t : Token) (operand : inner ∈ s.operands)
        (innerPlain : inner.firstCombination? = none) :
        (do inner.rejectCombination; let code ← compile scope inner; return code ++ [t]) ≠
          Except.error (.aggregateOperand op) := by
      rw [Ne, compile_unary_eq_error_iff, rejectCombination_eq_ok_iff.2 innerPlain]
      simp [operands_ne inner operand]
    intro failed
    cases s with
    | metric handle =>
      simp only [compile, bind_eq_error_iff, MetricRegistry.requireValid] at failed
      rcases failed with stale | ⟨_, _, failed⟩
      · split at stale <;> cases stale
      · cases failed
    | operation _ operands =>
      simp only [compile, bind_eq_error_iff] at failed
      rcases failed with below | ⟨_, _, failed⟩
      · obtain ⟨o, operand, found⟩ := exists_error_of_compileAll below
        exact operands_ne o operand found
      · cases failed
    | combination => cases plain
    | exponential inner =>
      rw [compile] at failed
      exact unary inner _ List.mem_cons_self plain failed
    | absolute inner =>
      rw [compile] at failed
      exact unary inner _ List.mem_cons_self plain failed
    | cached inner =>
      rw [compile] at failed
      exact unary inner _ List.mem_cons_self plain failed
    | slot ref =>
      simp only [compile, bind_eq_error_iff, Scope.offset, StatStack.requireValid] at failed
      rcases failed with (stale | ⟨_, _, stale⟩) | ⟨_, _, failed⟩
      · split at stale <;> cases stale
      · split at stale <;> cases stale
      · cases failed
    | _ => cases failed

/-- Whatever else is wrong with a statistic, a combination inside it comes first. -/
theorem compile_of_encased {s : Stat} (built : s.Built) (apart : s.isCombination = false)
    {op : AggregateOp} (found : s.firstCombination? = some op) (scope : Scope) :
    s.compile scope = .error (.aggregateOperand op) := by
  have refused (inner : Stat) (t : Token) (here : inner.firstCombination? = some op) :
      (do inner.rejectCombination; let code ← compile scope inner; return code ++ [t]) =
        Except.error (.aggregateOperand op) := by
    rw [compile_unary_eq_error_iff, rejectCombination, here]
    exact .inl rfl
  cases s with
  | operation =>
    rw [firstCombination?_eq_none_of_operands (built.plain rfl) apart] at found
    cases found
  | combination => cases apart
  | exponential inner =>
    rw [compile]
    exact refused inner _ found
  | absolute inner =>
    rw [compile]
    exact refused inner _ found
  | cached inner =>
    rw [compile]
    exact refused inner _ found
  | _ => cases found

theorem compile_eq_aggregateOperand_iff {s : Stat} (built : s.Built) (scope : Scope) (op : AggregateOp) :
    s.compile scope = .error (.aggregateOperand op) ↔
      s.isCombination = false ∧ s.parts.findSome? combinedBy? = some op := by
  rw [← firstCombination?_eq]
  constructor
  · intro failed
    cases apart : s.isCombination with
    | true =>
      cases s with
      | combination _ left right =>
        have plain := built.plain rfl
        simp only [operands, List.forall_mem_cons] at plain
        simp only [compile, bind_eq_error_iff] at failed
        rcases failed with leftFailed | ⟨_, _, rightFailed | ⟨_, _, failed⟩⟩
        · exact absurd leftFailed (compile_ne_of_plain plain.1)
        · exact absurd rightFailed (compile_ne_of_plain plain.2.1)
        · cases failed
      | _ => cases apart
    | false =>
      cases found : s.firstCombination? with
      | none => exact absurd failed (compile_ne_of_plain found)
      | some first =>
        rw [compile_of_encased built apart found scope] at failed
        cases failed
        exact ⟨rfl, rfl⟩
  · intro h
    exact compile_of_encased built h.1 h.2 scope

namespace Checked
variable {s : Stat}

theorem built (checked : s.Checked) : s.Built := by
  induction checked with
  | operation _ passed each => exact .operation each passed
  | combination _ _ passed leftBuilt rightBuilt => exact .combination leftBuilt rightBuilt passed
  | exponential _ passed part =>
    obtain ⟨-, rfl⟩ := guarded_eq_ok_iff.1 (exponential?_eq _ ▸ passed)
    exact .exponential part
  | absolute _ passed part =>
    obtain ⟨-, rfl⟩ := guarded_eq_ok_iff.1 (absolute?_eq _ ▸ passed)
    exact .absolute part
  | cached _ passed part =>
    obtain ⟨-, rfl⟩ := guarded_eq_ok_iff.1 (cached?_eq _ ▸ passed)
    exact .cached part
  | intField name => exact .intField name
  | metric handle => exact .metric handle
  | constant value => exact .constant value
  | hasInt field value => exact .hasInt field value
  | hasText field value => exact .hasText field value
  | slot ref => exact .slot ref
  | count => exact .count
  | floatScale field mult add => exact .floatScale field mult add

/-- Every check looks at all operands. -/
theorem plain (checked : s.Checked) : ∀ o ∈ s.operands, o.firstCombination? = none := by
  cases checked with
  | operation _ passed =>
    obtain ⟨_, plain, rfl⟩ := operation?_eq_ok_iff.1 passed
    exact plain
  | combination _ _ passed =>
    obtain ⟨plain, rfl⟩ := guarded_eq_ok_iff.1 (combine?_eq _ _ _ ▸ passed)
    exact plain
  | exponential _ passed =>
    obtain ⟨plain, rfl⟩ := guarded_eq_ok_iff.1 (exponential?_eq _ ▸ passed)
    exact plain
  | absolute _ passed =>
    obtain ⟨plain, rfl⟩ := guarded_eq_ok_iff.1 (absolute?_eq _ ▸ passed)
    exact plain
  | cached _ passed =>
    obtain ⟨plain, rfl⟩ := guarded_eq_ok_iff.1 (cached?_eq _ ▸ passed)
    exact plain
  | _ => simp [operands]

end Checked

/-- Combinations stand at the outer end. In what can be built no operation and no combination has one below
it, so each is under unary forms only. A check fails exactly when some combination is below what it is to
build, and names the first one. Compilation refuses exactly what has a combination inside and is none, before
it looks at any handle; what has passed all checks is never refused so. -/
theorem combination_outermost {s : Stat} (built : s.Built) :
    (∀ p ∈ s.parts, p.combines = true → ∀ o ∈ p.operands, ∀ c ∈ o.parts, c.isCombination = false) ∧
    (∀ c ∈ s.parts, c.isCombination = true → Encased c s) ∧
    (∀ scope op, s.compile scope = .error (.aggregateOperand op) ↔
      s.isCombination = false ∧ s.parts.findSome? combinedBy? = some op) ∧
    (∀ p : Stat, p.Checked → p.Built ∧ ∀ scope op, p.compile scope ≠ .error (.aggregateOperand op)) ∧
    (∀ op (l : List Stat), l ≠ [] → operation? op l = (operation op l).guarded) ∧
    (∀ op left right, combine? op left right = (combination op left right).guarded) ∧
    (∀ inner, exponential? inner = (exponential inner).guarded ∧
      absolute? inner = (absolute inner).guarded ∧ cached? inner = (cached inner).guarded) ∧
    ∀ p : Stat, (∃ op, p.guarded = .error (.aggregateOperand op)) ↔
      ∃ o ∈ p.operands, ∃ c ∈ o.parts, c.isCombination = true := by
  refine ⟨?_, built.encased, compile_eq_aggregateOperand_iff built, ?_, fun op l => operation?_eq op,
    combine?_eq, fun inner => ⟨exponential?_eq inner, absolute?_eq inner, cached?_eq inner⟩,
    guarded_eq_error_iff⟩
  · intro p member combines o operand
    rw [← firstCombination?_eq_none_iff]
    exact (built.part p member).plain combines o operand
  · intro p checked
    refine ⟨checked.built, fun scope op failed => ?_⟩
    obtain ⟨apart, found⟩ := (compile_eq_aggregateOperand_iff checked.built scope op).1 failed
    rw [← firstCombination?_eq, firstCombination?_eq_none_of_operands checked.plain apart] at found
    cases found

/-- A mean over a slot that nobody has pushed. -/
def straySlotMean : Stat := .combination .divide (.slot ⟨0, 0, 1⟩) .count

theorem combination_outermost_of_straySlotMean : (cached (absolute straySlotMean)).Built ∧
    straySlotMean.compile ⟨.new 0, .new 1⟩ = .error (.staleReference 0) ∧
    Encased straySlotMean (cached (absolute straySlotMean)) ∧
    (cached (absolute straySlotMean)).compile ⟨.new 0, .new 1⟩ = .error (.aggregateOperand .divide) ∧
    operation? .max [.count, exponential straySlotMean, .combination .add .count .count] =
      .error (.aggregateOperand .divide) := by
  have mean : straySlotMean.Built := .combination (.slot _) .count rfl
  have built : (cached (absolute straySlotMean)).Built := .cached (.absolute mean)
  obtain ⟨-, encased, refused, -, operations, -⟩ := combination_outermost built
  have inside : straySlotMean ∈ (cached (absolute straySlotMean)).parts := by
    simp [parts, straySlotMean]
  refine ⟨built, rfl, encased _ inside rfl, (refused _ _).2 ⟨rfl, rfl⟩, ?_⟩
  rw [operations _ _ (List.cons_ne_nil _ _)]
  rfl

end Rollup.Stat
