import Rollup.Liveness.Metric
import Rollup.Liveness.StatStack

namespace Rollup

inductive Stat where
  | intField (name : String)
  | metric (handle : MetricHandle)
  | operation (op : StatOp) (operands : List Stat)
  | combination (op : AggregateOp) (left right : Stat)
  | constant (value : Int64)
  | exponential (inner : Stat)
  | absolute (inner : Stat)
  | cached (inner : Stat)
  | hasInt (field : String) (value : Int64)
  | hasText (field value : String)
  | slot (ref : SlotRef)
  | count
  | floatScale (field : String) (mult add : Int64)

namespace Stat

mutual
/-- The first combination in reading order, the statistic itself included. -/
def firstCombination? : Stat → Option AggregateOp
  | combination op _ _ => some op
  | operation _ operands => firstCombinationOf? operands
  | exponential inner => firstCombination? inner
  | absolute inner => firstCombination? inner
  | cached inner => firstCombination? inner
  | _ => none

def firstCombinationOf? : List Stat → Option AggregateOp
  | [] => none
  | s :: rest =>
    match firstCombination? s with
    | some op => some op
    | none => firstCombinationOf? rest
end

def containsCombination (s : Stat) : Bool := s.firstCombination?.isSome

/-- Totals exist only per group, so no expression over a document may hold a combination. -/
def rejectCombination (s : Stat) : Except Fault Unit :=
  match s.firstCombination? with
  | some op => .error (.aggregateOperand op)
  | none => .ok ()

theorem rejectCombination_eq_ok_iff {s : Stat} :
    s.rejectCombination = .ok () ↔ s.firstCombination? = none := by
  unfold rejectCombination
  cases s.firstCombination? <;> simp

def shape : Stat → Shape
  | combination op _ _ => .combined op
  | _ => .single

def isCombination (s : Stat) : Bool := s.shape != .single

def width (s : Stat) : Nat := s.shape.width

def operation? (op : StatOp) (operands : List Stat) : Except Fault Stat :=
  if operands.isEmpty then .error (.emptyOperands op)
  else do
    operands.forM rejectCombination
    return operation op operands

def combine? (op : AggregateOp) (left right : Stat) : Except Fault Stat := do
  left.rejectCombination
  right.rejectCombination
  return combination op left right

def exponential? (inner : Stat) : Except Fault Stat := do
  inner.rejectCombination
  return exponential inner

def absolute? (inner : Stat) : Except Fault Stat := do
  inner.rejectCombination
  return absolute inner

def cached? (inner : Stat) : Except Fault Stat := do
  inner.rejectCombination
  return cached inner

/-- Reads a pushed statistic back; one that spans two slots has no value per document. -/
def reference? : StatRef → Except Fault Stat
  | .single ref => .ok (slot ref)
  | .aggregate op _ _ => .error (.aggregateOperand op)

def metric? (handle : MetricHandle) (registry : MetricRegistry) : Except Fault Stat := do
  registry.requireValid handle
  return metric handle

theorem firstCombinationOf?_eq_none_iff {l : List Stat} :
    firstCombinationOf? l = none ↔ ∀ s ∈ l, s.firstCombination? = none := by
  induction l with
  | nil => simp [firstCombinationOf?]
  | cons s rest ih => cases h : s.firstCombination? <;> simp [firstCombinationOf?, h, ih]

mutual
def display : Stat → String
  | intField name => "int:" ++ name
  | metric handle => "dynamic \"" ++ handle.name ++ "\""
  | operation op operands => "(" ++ (" " ++ op.symbol ++ " ").intercalate (displays operands) ++ ")"
  | combination op left right => "(" ++ left.display ++ ") " ++ op.symbol ++ " (" ++ right.display ++ ")"
  | constant value => toString value
  | exponential inner => "exp(" ++ inner.display ++ ")"
  | absolute inner => "abs(" ++ inner.display ++ ")"
  | cached inner => "cached(" ++ inner.display ++ ")"
  | hasInt field value => s!"hasint:{field}:{value}"
  | hasText field value => s!"hasstr:{field}:{value}"
  | slot ref => "ref:" ++ toString ref.depth
  | count => "count()"
  | floatScale field mult add => s!"floatscale:{field}*{mult}+{add}"

def displays : List Stat → List String
  | [] => []
  | s :: rest => s.display :: displays rest
end

end Stat
end Rollup
