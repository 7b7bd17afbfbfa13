import Rollup.Document
import Rollup.Fault

namespace Rollup

inductive Token where
  | field (name : String)
  | literal (value : Int64)
  | operator (op : StatOp)
  | exponential
  | absolute
  | cached
  | hasInt (field : String) (value : Int64)
  | hasText (field value : String)
  | ref (offset : Nat)
  | count
  | floatScale (field : String) (mult add : Int64)
  | metric (name : String)
  deriving DecidableEq

def Token.display : Token → String
  | field name => name
  | literal value => toString value
  | operator op => op.symbol
  | exponential => "exp"
  | absolute => "abs()"
  | cached => "cached()"
  | hasInt name value => s!"hasint {name}:{value}"
  | hasText name value => s!"hasstr {name}:{value}"
  | ref offset => s!"ref {offset}"
  | count => "count()"
  | floatScale name mult add => s!"floatscale {name} * {mult} + {add}"
  | metric name => "dynamic " ++ name

/-- What a document offers to a statistic: its fields, its values in the occupied slots from the bottom,
and its values of the named metrics. -/
structure Reading where
  doc : Document
  slots : List Int64
  metrics : List (String × Int64)
  deriving DecidableEq

namespace Reading

/-- The value `offset` slots below the top one. -/
def fromTop? (r : Reading) (offset : Nat) : Option Int64 := r.slots.reverse[offset]?

def metric (r : Reading) (name : String) : Int64 := (r.metrics.lookup name).getD 0

def hasInt (r : Reading) (field : String) (value : Int64) : Int64 :=
  if (r.doc.get? field).bind Term.asInt = some value then 1 else 0

def hasText (r : Reading) (field value : String) : Int64 :=
  if (r.doc.get? field).map Term.display = some value then 1 else 0

/-- A field as a number: a text stands for the decimal it spells between blanks, else for zero. -/
def number (r : Reading) (field : String) : Float :=
  match r.doc.get? field with
  | some (.int v) => Number.Binary64.ofInt64 v
  | some (.text s) => (Number.Reading.decimal? (Text.Blank.trim s.toList)).getD 0
  | none => 0

def floatScale (r : Reading) (field : String) (mult add : Int64) : Int64 :=
  Number.Binary64.truncate
    (r.number field * Number.Binary64.ofInt64 mult + Number.Binary64.ofInt64 add)

end Reading

namespace Token

/-- One step on a stack whose top comes first. -/
def step (r : Reading) : Token → List Int64 → Except Fault (List Int64)
  | field name, stack => .ok (r.doc.int name :: stack)
  | literal value, stack => .ok (value :: stack)
  | operator op, right :: left :: stack => .ok (op.apply left right :: stack)
  | operator _, _ => .error .stackUnderflow
  | exponential, v :: stack => .ok (wholeExp v :: stack)
  | exponential, [] => .error .stackUnderflow
  | absolute, v :: stack => .ok (magnitude v :: stack)
  | absolute, [] => .error .stackUnderflow
  | cached, stack => .ok stack
  | hasInt name value, stack => .ok (r.hasInt name value :: stack)
  | hasText name value, stack => .ok (r.hasText name value :: stack)
  | ref offset, stack =>
    match r.fromTop? offset with
    | some v => .ok (v :: stack)
    | none => .error (.unknownReference offset)
  | count, stack => .ok (1 :: stack)
  | floatScale name mult add, stack => .ok (r.floatScale name mult add :: stack)
  | metric name, stack => .ok (r.metric name :: stack)

def run (r : Reading) : List Token → List Int64 → Except Fault (List Int64)
  | [], stack => .ok stack
  | t :: rest, stack => do run r rest (← step r t stack)

/-- The values that instructions leave on an empty stack, the bottom one first. -/
def evaluate (r : Reading) (tokens : List Token) : Except Fault (List Int64) :=
  List.reverse <$> run r tokens []

theorem run_append (r : Reading) (a b : List Token) (stack : List Int64) :
    run r (a ++ b) stack = run r a stack >>= run r b := by
  induction a generalizing stack with
  | nil => rfl
  | cons t rest ih =>
    simp only [List.cons_append, run]
    cases step r t stack with
    | error e => rfl
    | ok next => exact ih next

end Token
end Rollup
