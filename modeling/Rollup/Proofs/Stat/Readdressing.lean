import Rollup.Proofs.Stat.Combination

namespace Rollup

def SlotRef.readdressed (σ : Nat → Nat) (slot : SlotRef) : SlotRef := { slot with stack := σ slot.stack }

def MetricHandle.readdressed (σ : Nat → Nat) (m : MetricHandle) : MetricHandle :=
  { m with registry := σ m.registry }

def StatRef.readdressed (σ : Nat → Nat) : StatRef → StatRef
  | single slot => single (slot.readdressed σ)
  | aggregate op left right => aggregate op (left.readdressed σ) (right.readdressed σ)

namespace Stat
open Outcome
variable {σ : Nat → Nat}

mutual
/-- A statistic with the ids in its handles replaced. -/
def readdressed (σ : Nat → Nat) : Stat → Stat
  | intField name => intField name
  | metric handle => metric (handle.readdressed σ)
  | operation op operands => operation op (readdressedAll σ operands)
  | combination op left right => combination op (readdressed σ left) (readdressed σ right)
  | constant value => constant value
  | exponential inner => exponential (readdressed σ inner)
  | absolute inner => absolute (readdressed σ inner)
  | cached inner => cached (readdressed σ inner)
  | hasInt field value => hasInt field value
  | hasText field value => hasText field value
  | slot ref => slot (ref.readdressed σ)
  | count => count
  | floatScale field mult add => floatScale field mult add

def readdressedAll (σ : Nat → Nat) : List Stat → List Stat
  | [] => []
  | s :: rest => readdressed σ s :: readdressedAll σ rest
end

theorem readdressedAll_eq_map (l : List Stat) : readdressedAll σ l = l.map (readdressed σ) := by
  induction l with
  | nil => rfl
  | cons s rest ih => rw [readdressedAll, List.map_cons, ih]

theorem operands_readdressed (s : Stat) : (s.readdressed σ).operands = s.operands.map (readdressed σ) := by
  cases s <;> simp [readdressed, operands, readdressedAll_eq_map]

@[simp] theorem combinedBy?_readdressed (s : Stat) : (s.readdressed σ).combinedBy? = s.combinedBy? := by
  cases s <;> rfl

@[simp] theorem shape_readdressed (s : Stat) : (s.readdressed σ).shape = s.shape := by
  cases s <;> rfl

@[simp] theorem width_readdressed (s : Stat) : (s.readdressed σ).width = s.width :=
  congrArg Shape.width s.shape_readdressed

theorem readdressed_id (s : Stat) : s.readdressed id = s := by
  induction s using operands_induction with
  | step s below =>
    cases s with
    | operation op operands =>
      have each : operands.map (readdressed id) = operands :=
        (List.map_congr_left below).trans operands.map_id
      rw [readdressed, readdressedAll_eq_map, each]
    | combination op left right =>
      rw [readdressed, below left (by simp [Stat.operands]), below right (by simp [Stat.operands])]
    | exponential inner => rw [readdressed, below inner (by simp [Stat.operands])]
    | absolute inner => rw [readdressed, below inner (by simp [Stat.operands])]
    | cached inner => rw [readdressed, below inner (by simp [Stat.operands])]
    | _ => rfl

theorem parts_readdressed (s : Stat) : (s.readdressed σ).parts = s.parts.map (readdressed σ) := by
  induction s using operands_induction with
  | step s below =>
    rw [parts_eq, s.parts_eq, operands_readdressed, List.map_cons, List.map_flatMap, List.flatMap_map]
    exact congrArg _ (List.flatMap_congr below)

@[simp] theorem rejectCombination_readdressed (s : Stat) :
    (s.readdressed σ).rejectCombination = s.rejectCombination := by
  have same : (s.readdressed σ).firstCombination? = s.firstCombination? := by
    rw [firstCombination?_eq, firstCombination?_eq, parts_readdressed, List.findSome?_map]
    refine congrArg (List.findSome? · s.parts) ?_
    funext p
    exact combinedBy?_readdressed p
  rw [rejectCombination, rejectCombination, same]

section Compile
variable {scope scope' : Scope}
  (offset : ∀ slot : SlotRef, scope'.offset (slot.readdressed σ) = scope.offset slot)
  (checked : ∀ m : MetricHandle,
    scope'.metrics.requireValid (m.readdressed σ) = scope.metrics.requireValid m)
include offset checked

theorem compile_readdressed (s : Stat) : (s.readdressed σ).compile scope' = s.compile scope := by
  induction s using operands_induction with
  | step s below =>
    cases s with
    | metric handle =>
      rw [readdressed, compile, compile, checked]
      rfl
    | operation op operands =>
      have all : compileAll scope' (operands.map (readdressed σ)) = compileAll scope operands := by
        replace below : ∀ o ∈ operands, (o.readdressed σ).compile scope' = o.compile scope := below
        induction operands with
        | nil => rfl
        | cons o rest ih =>
          rw [List.forall_mem_cons] at below
          rw [List.map_cons, compileAll, compileAll, below.1, ih below.2]
      rw [readdressed, compile, compile, readdressedAll_eq_map, all]
    | combination op left right =>
      rw [readdressed, compile, compile, below left (by simp [Stat.operands]),
        below right (by simp [Stat.operands])]
    | exponential inner =>
      rw [readdressed, compile, compile, rejectCombination_readdressed,
        below inner (by simp [Stat.operands])]
    | absolute inner =>
      rw [readdressed, compile, compile, rejectCombination_readdressed,
        below inner (by simp [Stat.operands])]
    | cached inner =>
      rw [readdressed, compile, compile, rejectCombination_readdressed,
        below inner (by simp [Stat.operands])]
    | slot ref =>
      rw [readdressed, compile, compile, offset]
    | _ => rfl

end Compile
end Stat
end Rollup
