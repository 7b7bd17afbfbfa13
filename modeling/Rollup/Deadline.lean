import Rollup.Settings

namespace Rollup

/-- A time limit that is looked at every `interval` records. The clock stands at `elapsed` milliseconds
during a run: a limit has passed at every look or at none. -/
structure Deadline where
  limit : Option Nat
  interval : Nat
  elapsed : Nat
  deriving DecidableEq

namespace Deadline

def none : Deadline := ⟨.none, 0, 0⟩

/-- An interval of zero counts as one. -/
def after (limit interval : Nat) : Deadline := ⟨some limit, Nat.max interval 1, 0⟩

def ofSettings (s : Settings) : Deadline :=
  match s.timeout with
  | some limit => after limit s.checkInterval
  | .none => none

def missed (d : Deadline) : Bool :=
  match d.limit with
  | some limit => limit ≤ d.elapsed
  | .none => false

def check (d : Deadline) : Except Fault Unit :=
  if d.missed then .error .deadlineExceeded else .ok ()

/-- Whether the clock is looked at before the record that follows `seen` others. -/
def due (d : Deadline) (seen : Nat) : Bool := d.limit.isSome && seen % d.interval == 0

end Deadline
end Rollup
