import Rollup.Stat.Basic
import Rollup.Stat.Token

namespace Rollup

/-- What compilation looks at: the statistics pushed so far and the live metrics. -/
structure Scope where
  stack : StatStack
  metrics : MetricRegistry

namespace Scope

def depth (s : Scope) : Nat := s.stack.depth

/-- A reference counts down from the slot below the one about to be pushed, so pushes and pops since
it was taken shift it. -/
def offset (s : Scope) (ref : SlotRef) : Except Fault Nat := do
  s.stack.requireValid (.single ref)
  if ref.depth < s.depth then return s.depth - (ref.depth + 1)
  else throw (.staleReference ref.depth)

end Scope

namespace Stat

/-- The operator stands after every operand but the first. -/
def joinOperands (op : StatOp) : List (List Token) → List Token
  | [] => []
  | first :: rest => first ++ rest.flatMap (· ++ [.operator op])

mutual
def compile (scope : Scope) : Stat → Except Fault (List Token)
  | intField name => return [.field name]
  | metric handle => do
    scope.metrics.requireValid handle
    return [.metric handle.name]
  | operation op operands => do
    let codes ← compileAll scope operands
    return joinOperands op codes
  | combination _ left right => do
    let leftCode ← compile scope left
    let rightCode ← compile scope right
    return leftCode ++ rightCode
  | constant value => return [.literal value]
  | exponential inner => do
    inner.rejectCombination
    let code ← compile scope inner
    return code ++ [.exponential]
  | absolute inner => do
    inner.rejectCombination
    let code ← compile scope inner
    return code ++ [.absolute]
  | cached inner => do
    inner.rejectCombination
    let code ← compile scope inner
    return code ++ [.cached]
  | hasInt field value => return [.hasInt field value]
  | hasText field value => return [.hasText field value]
  | slot ref => do
    let offset ← scope.offset ref
    return [.ref offset]
  | count => return [.count]
  | floatScale field mult add => return [.floatScale field mult add]

def compileAll (scope : Scope) : List Stat → Except Fault (List (List Token))
  | [] => return []
  | s :: rest => do
    let code ← compile scope s
    let codes ← compileAll scope rest
    return code :: codes
end

mutual
/-- The value of a statistic for one document; a combination has none of its own and counts as its left
side. -/
def value (r : Reading) : Stat → Int64
  | intField name => r.doc.int name
  | metric handle => r.metric handle.name
  | operation op operands =>
    match valueAll r operands with
    | [] => 0
    | first :: rest => rest.foldl op.apply first
  | combination _ left _ => value r left
  | constant v => v
  | exponential inner => wholeExp (value r inner)
  | absolute inner => magnitude (value r inner)
  | cached inner => value r inner
  | hasInt field v => r.hasInt field v
  | hasText field v => r.hasText field v
  | slot ref => r.slots.getD ref.depth 0
  | count => 1
  | floatScale field mult add => r.floatScale field mult add

def valueAll (r : Reading) : List Stat → List Int64
  | [] => []
  | s :: rest => value r s :: valueAll r rest
end

/-- The values that a pushed statistic adds for one document, one per slot. -/
def slotValues (r : Reading) : Stat → List Int64
  | combination _ left right => [value r left, value r right]
  | s => [value r s]

end Stat
end Rollup
