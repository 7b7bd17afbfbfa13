import Rollup.Action
import Rollup.Deadline
import Rollup.Key

namespace Rollup

/-- One term of a field within one group, with the total of every occupied slot from the bottom. -/
structure Record where
  field : String
  term : Term
  group : GroupId
  stats : List Float
  deriving DecidableEq

abbrev Stream := List (Except Fault Record)

/-- The values before the first fault, and that fault. -/
def untilFault {α : Type} : List (Except Fault α) → List α × Option Fault
  | [] => ([], none)
  | .error e :: _ => ([], some e)
  | .ok a :: rest =>
    let (before, fault) := untilFault rest
    (a :: before, fault)

/-- Takes in one record at a time, by the kind of its term; the state is what has been taken in. -/
structure Sink (σ : Type) where
  int : String → Int64 → GroupId → List Float → Action σ Unit
  text : String → String → GroupId → List Float → Action σ Unit

namespace Sink
variable {σ : Type}

def accept (sink : Sink σ) (r : Record) : Action σ Unit :=
  match r.term with
  | .int term => sink.int r.field term r.group r.stats
  | .text term => sink.text r.field term r.group r.stats

/-- A sink that takes in every record alike and never fails. -/
def collecting (add : Record → σ → σ) : Sink σ where
  int field term group stats := modify (add ⟨field, .int term, group, stats⟩)
  text field term group stats := modify (add ⟨field, .text term, group, stats⟩)

/-- Folds the rest of a stream of which `seen` records have been taken in. The deadline comes before the
record: a fault in the stream behind a missed deadline is not met. -/
def foldFrom (sink : Sink σ) (deadline : Deadline) : Nat → Stream → Action σ Nat
  | seen, [] => pure seen
  | seen, item :: rest => do
    if deadline.due seen then Action.ofExcept deadline.check
    let record ← Action.ofExcept item
    sink.accept record
    foldFrom sink deadline (seen + 1) rest

/-- The number of records taken in, or the first failure. -/
def fold (sink : Sink σ) (deadline : Deadline) (stream : Stream) : Action σ Nat :=
  sink.foldFrom deadline 0 stream

end Sink

/-- What a fold leaves behind in the sink, unless it fails. -/
def Sink.result {σ : Type} (sink : Sink σ) (deadline : Deadline) (stream : Stream) (start : σ) :
    Except Fault σ :=
  match (sink.fold deadline stream).on start with
  | (.ok _, s) => .ok s
  | (.error e, _) => .error e

end Rollup
