import Rollup.Number.Binary64

namespace Rollup

inductive StatOp where
  | add
  | subtract
  | multiply
  | divide
  | modulus
  | less
  | lessEquals
  | greater
  | greaterEquals
  | equals
  | notEquals
  | min
  | max
  deriving DecidableEq

namespace StatOp

def symbol : StatOp → String
  | add => "+"
  | subtract => "-"
  | multiply => "*"
  | divide => "/"
  | modulus => "%"
  | less => "<"
  | lessEquals => "<="
  | greater => ">"
  | greaterEquals => ">="
  | equals => "="
  | notEquals => "!="
  | min => "min()"
  | max => "max()"

/-- A quotient fits in 64 bits unless the divisor is zero or the least integer is negated. -/
def divides (left right : Int64) : Bool :=
  right != 0 && !(left == Int64.minValue && right == -1)

/-- Sums, differences and products wrap; a quotient or remainder that does not fit is zero. -/
def apply (op : StatOp) (left right : Int64) : Int64 :=
  match op with
  | add => left + right
  | subtract => left - right
  | multiply => left * right
  | divide => if divides left right then left / right else 0
  | modulus => if divides left right then left % right else 0
  | less => if left < right then 1 else 0
  | lessEquals => if left ≤ right then 1 else 0
  | greater => if right < left then 1 else 0
  | greaterEquals => if right ≤ left then 1 else 0
  | equals => if left = right then 1 else 0
  | notEquals => if left = right then 0 else 1
  | min => if left ≤ right then left else right
  | max => if left ≤ right then right else left

end StatOp

inductive AggregateOp where
  | add
  | subtract
  | multiply
  | divide
  deriving DecidableEq

namespace AggregateOp

def symbol : AggregateOp → String
  | add => "+"
  | subtract => "-"
  | multiply => "*"
  | divide => "/"

/-- A quotient by either zero is zero. -/
def combine (op : AggregateOp) (left right : Float) : Float :=
  match op with
  | add => left + right
  | subtract => left - right
  | multiply => left * right
  | divide => if right == 0 then 0 else left / right

end AggregateOp

/-- The least integer has no negation and goes to the greatest. -/
def magnitude (v : Int64) : Int64 :=
  if v = Int64.minValue then Int64.maxValue else if v < 0 then -v else v

/-- The exponential as a whole number. -/
def wholeExp (v : Int64) : Int64 := Number.Binary64.truncate (Number.Binary64.ofInt64 v).exp

end Rollup
