import Rollup.Proofs.Outcome
import Rollup.Stat.Compile

namespace Rollup

/-- The statistics that can be built: operations and combinations only through their checks, the other
forms freely. -/
inductive Stat.Built : Stat → Prop where
  | intField (name : String) : Built (.intField name)
  | metric (handle : MetricHandle) : Built (.metric handle)
  | operation {op : StatOp} {operands : List Stat} {s : Stat} (parts : ∀ o ∈ operands, Built o)
      (checked : Stat.operation? op operands = .ok s) : Built s
  | combination {op : AggregateOp} {left right s : Stat} (leftBuilt : Built left)
      (rightBuilt : Built right) (checked : Stat.combine? op left right = .ok s) : Built s
  | constant (value : Int64) : Built (.constant value)
  | exponential {inner : Stat} (part : Built inner) : Built (.exponential inner)
  | absolute {inner : Stat} (part : Built inner) : Built (.absolute inner)
  | cached {inner : Stat} (part : Built inner) : Built (.cached inner)
  | hasInt (field : String) (value : Int64) : Built (.hasInt field value)
  | hasText (field value : String) : Built (.hasText field value)
  | slot (ref : SlotRef) : Built (.slot ref)
  | count : Built .count
  | floatScale (field : String) (mult add : Int64) : Built (.floatScale field mult add)

namespace Stat
open Outcome

theorem operation?_eq_ok_iff {op : StatOp} {operands : List Stat} {s : Stat} :
    operation? op operands = .ok s ↔
      operands ≠ [] ∧ (∀ o ∈ operands, o.firstCombination? = none) ∧ s = operation op operands := by
  unfold operation?
  cases operands with
  | nil => simp
  | cons first rest =>
    rw [if_neg (by simp)]
    simp only [check_bind_eq_ok_iff, forM_eq_ok_iff, rejectCombination_eq_ok_iff, pure_eq_ok_iff]
    simp [eq_comm (a := s)]

theorem combine?_eq_ok_iff {op : AggregateOp} {left right s : Stat} :
    combine? op left right = .ok s ↔
      left.firstCombination? = none ∧ right.firstCombination? = none ∧
        s = combination op left right := by
  unfold combine?
  simp only [check_bind_eq_ok_iff, rejectCombination_eq_ok_iff, pure_eq_ok_iff]
  rw [eq_comm (a := s)]

theorem valueAll_eq_map (r : Reading) (l : List Stat) : valueAll r l = l.map (value r) := by
  induction l with
  | nil => rfl
  | cons s rest ih => simp [valueAll, ih]

/-- A statistic that is no combination itself occupies one slot, which holds its value. -/
theorem slotValues_of_firstCombination? {s : Stat} (plain : s.firstCombination? = none)
    (r : Reading) : s.slotValues r = [s.value r] := by
  cases s <;> first | rfl | simp [firstCombination?] at plain

theorem length_slotValues (s : Stat) (r : Reading) : (s.slotValues r).length = s.width := by
  cases s <;> rfl

end Stat

/-- A live slot lies below the top, at the offset that compilation gives it. -/
theorem Scope.offset_eq_ok {scope : Scope} {ref : SlotRef} {offset : Nat}
    (h : scope.offset ref = .ok offset) :
    ref.depth < scope.depth ∧ offset = scope.depth - (ref.depth + 1) := by
  unfold Scope.offset StatStack.requireValid at h
  split at h
  · simp only [bind, Except.bind] at h
    split at h
    next below => exact ⟨below, by simpa [pure, Except.pure, eq_comm] using h⟩
    next => cases h
  · cases h

theorem Reading.fromTop?_offset {r : Reading} {n d : Nat} (length : r.slots.length = n) (below : d < n) :
    r.fromTop? (n - (d + 1)) = some (r.slots.getD d 0) := by
  have position : r.slots.length - 1 - (n - (d + 1)) = d := by omega
  rw [Reading.fromTop?, List.getElem?_reverse (by omega), position]
  simp [List.getD, List.getElem?_eq_getElem (length ▸ below)]

namespace Stat
open Outcome Token

/-- The operands of an operation are folded from the left, whatever code computes each of them. -/
theorem run_joinOperands {r : Reading} {op : StatOp} {values : List Int64} {codes : List (List Token)}
    (parts : List.Forall₂ (fun v code => ∀ stack, run r code stack = .ok (v :: stack)) values codes)
    (first : Int64) (stack : List Int64) :
    run r (codes.flatMap (· ++ [.operator op])) (first :: stack) =
      .ok (values.foldl op.apply first :: stack) := by
  induction parts generalizing first with
  | nil => rfl
  | @cons v code values codes head _ ih =>
    have step : run r (code ++ [.operator op]) (first :: stack) =
        .ok (op.apply first v :: stack) := by
      rw [run_append, head]
      rfl
    rw [List.flatMap_cons, run_append, step]
    exact ih (op.apply first v)

theorem compileAll_eq_ok {scope : Scope} {l : List Stat} {codes : List (List Token)}
    (h : compileAll scope l = .ok codes) :
    List.Forall₂ (fun s code => compile scope s = .ok code) l codes := by
  induction l generalizing codes with
  | nil =>
    cases h
    exact .nil
  | cons s rest ih =>
    simp only [compileAll, bind_eq_ok_iff, pure_eq_ok_iff] at h
    obtain ⟨code, here, others, later, rfl⟩ := h
    exact .cons here (ih later)

/-- A unary form refuses an operand that holds a combination and puts one instruction after its code. -/
theorem compile_unary_eq_ok_iff {scope : Scope} {inner : Stat} {t : Token} {tokens : List Token} :
    (do inner.rejectCombination; let code ← compile scope inner; return code ++ [t]) =
        Except.ok tokens ↔
      inner.firstCombination? = none ∧ ∃ code, compile scope inner = .ok code ∧ code ++ [t] = tokens := by
  rw [check_bind_eq_ok_iff, rejectCombination_eq_ok_iff]
  simp only [bind_eq_ok_iff, pure_eq_ok_iff]

/-- The stack below is arbitrary, so that the code of an operand can be run on the values of those
before it. -/
theorem run_compile {scope : Scope} {r : Reading} (inStep : r.slots.length = scope.depth) {s : Stat}
    (built : s.Built) (plain : s.firstCombination? = none) {tokens : List Token}
    (h : s.compile scope = .ok tokens) (stack : List Int64) :
    run r tokens stack = .ok (s.value r :: stack) := by
  induction built generalizing tokens stack with
  | intField name => cases h; rfl
  | metric handle =>
    simp only [compile, MetricRegistry.requireValid] at h
    split at h
    · cases h
      rfl
    · cases h
  | @operation op operands s parts checked ih =>
    obtain ⟨nonempty, operandsPlain, rfl⟩ := operation?_eq_ok_iff.1 checked
    simp only [compile, bind_eq_ok_iff, pure_eq_ok_iff] at h
    obtain ⟨codes, compiled, rfl⟩ := h
    have each : List.Forall₂ (fun o code => ∀ stack, run r code stack = .ok (o.value r :: stack))
        operands codes := by
      have members := (List.forall₂_and_left _ _).2 ⟨fun o member => member, compileAll_eq_ok compiled⟩
      exact members.imp fun o code ⟨member, code_eq⟩ => ih o member (operandsPlain o member) code_eq
    cases each with
    | nil => exact absurd rfl nonempty
    | @cons first code rest codes head tail =>
      rw [joinOperands, run_append, head]
      have later := @run_joinOperands r op _ _ (List.forall₂_map_left_iff.2 tail) (first.value r) stack
      show run r _ (first.value r :: stack) = _
      rw [later]
      simp [value, valueAll, valueAll_eq_map]
  | combination _ _ checked =>
    obtain ⟨_, _, rfl⟩ := combine?_eq_ok_iff.1 checked
    simp [firstCombination?] at plain
  | constant v => cases h; rfl
  | exponential _ ih =>
    rw [compile] at h
    obtain ⟨innerPlain, code, compiled, rfl⟩ := compile_unary_eq_ok_iff.1 h
    rw [run_append, ih innerPlain compiled stack]
    rfl
  | absolute _ ih =>
    rw [compile] at h
    obtain ⟨innerPlain, code, compiled, rfl⟩ := compile_unary_eq_ok_iff.1 h
    rw [run_append, ih innerPlain compiled stack]
    rfl
  | cached _ ih =>
    rw [compile] at h
    obtain ⟨innerPlain, code, compiled, rfl⟩ := compile_unary_eq_ok_iff.1 h
    rw [run_append, ih innerPlain compiled stack]
    rfl
  | hasInt field v => cases h; rfl
  | hasText field v => cases h; rfl
  | slot ref =>
    simp only [compile, bind_eq_ok_iff, pure_eq_ok_iff] at h
    obtain ⟨offset, place, rfl⟩ := h
    obtain ⟨below, rfl⟩ := Scope.offset_eq_ok place
    simp [run, step, Reading.fromTop?_offset inStep below, value, bind, Except.bind]
  | count => cases h; rfl
  | floatScale field mult add => cases h; rfl

/-- Of the statistics that compile, only an outermost combination holds one. -/
theorem firstCombination?_of_compile {scope : Scope} {s : Stat} (built : s.Built)
    (single : s.shape = .single) {tokens : List Token} (h : s.compile scope = .ok tokens) :
    s.firstCombination? = none := by
  cases built with
  | operation _ checked =>
    obtain ⟨_, plain, rfl⟩ := operation?_eq_ok_iff.1 checked
    exact firstCombinationOf?_eq_none_iff.2 plain
  | combination _ _ checked =>
    obtain ⟨_, _, rfl⟩ := combine?_eq_ok_iff.1 checked
    cases single
  | exponential _ => exact (compile_unary_eq_ok_iff.1 h).1
  | absolute _ => exact (compile_unary_eq_ok_iff.1 h).1
  | cached _ => exact (compile_unary_eq_ok_iff.1 h).1
  | _ => rfl

/-- A combination leaves its left value below its right one. -/
theorem evaluate_compile {scope : Scope} {r : Reading} (inStep : r.slots.length = scope.depth)
    {s : Stat} (built : s.Built) {tokens : List Token} (h : s.compile scope = .ok tokens) :
    evaluate r tokens = .ok (s.slotValues r) := by
  cases shape : s.shape with
  | single =>
    have plain := firstCombination?_of_compile built shape h
    rw [evaluate, run_compile inStep built plain h, slotValues_of_firstCombination? plain]
    rfl
  | combined op =>
    cases built with
    | combination leftBuilt rightBuilt checked =>
      obtain ⟨leftPlain, rightPlain, rfl⟩ := combine?_eq_ok_iff.1 checked
      simp only [compile, bind_eq_ok_iff, pure_eq_ok_iff] at h
      obtain ⟨leftCode, leftEq, rightCode, rightEq, rfl⟩ := h
      rw [evaluate, run_append, run_compile inStep leftBuilt leftPlain leftEq]
      show List.reverse <$> run r rightCode _ = _
      rw [run_compile inStep rightBuilt rightPlain rightEq]
      rfl
    | operation _ checked =>
      obtain ⟨_, _, rfl⟩ := operation?_eq_ok_iff.1 checked
      cases shape
    | _ => cases shape

end Stat
end Rollup
