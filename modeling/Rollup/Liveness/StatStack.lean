import Rollup.Fault

namespace Rollup

/-- A handle to one occupied slot: the stack it belongs to, its place, and the number of its push. -/
structure SlotRef where
  stack : Nat
  depth : Nat
  generation : Nat
  deriving DecidableEq

/-- What a pushed statistic occupies: one slot, or two whose totals are combined. -/
inductive Shape where
  | single
  | combined (op : AggregateOp)
  deriving DecidableEq

def Shape.width : Shape → Nat
  | single => 1
  | combined _ => 2

inductive StatRef where
  | single (slot : SlotRef)
  | aggregate (op : AggregateOp) (left right : SlotRef)
  deriving DecidableEq

namespace StatRef

def depth : StatRef → Nat
  | single slot => slot.depth
  | aggregate _ left _ => left.depth

/-- Reads a statistic out of a row with one value per slot; a slot past its end reads as zero. -/
def read (row : List Float) : StatRef → Float
  | single slot => row.getD slot.depth 0
  | aggregate op left right => op.combine (row.getD left.depth 0) (row.getD right.depth 0)

end StatRef

/-- Slots are numbered from the bottom; the widths of the pushed statistics are kept innermost first. -/
structure StatStack where
  id : Nat
  slots : List Nat
  widths : List Nat
  nextGeneration : Nat
  deriving DecidableEq

namespace StatStack

def new (id : Nat) : StatStack := ⟨id, [], [], 1⟩

/-- How many slots are occupied. -/
def depth (s : StatStack) : Nat := s.slots.length

/-- How many statistics are pushed. -/
def size (s : StatStack) : Nat := s.widths.length

def isEmpty (s : StatStack) : Bool := s.widths.isEmpty

/-- The handle of the next slot to be occupied. -/
def nextSlot (s : StatStack) : SlotRef := ⟨s.id, s.depth, s.nextGeneration⟩

def occupy (s : StatStack) : StatStack :=
  { s with slots := s.slots ++ [s.nextGeneration], nextGeneration := s.nextGeneration + 1 }

def push (s : StatStack) (shape : Shape) : StatRef × StatStack :=
  let entered := { s with widths := shape.width :: s.widths }
  match shape with
  | .single => (.single entered.nextSlot, entered.occupy)
  | .combined op => (.aggregate op entered.nextSlot entered.occupy.nextSlot, entered.occupy.occupy)

/-- Drops the innermost statistic and tells how many slots it occupied. -/
def pop (s : StatStack) : Except Fault (Nat × StatStack) :=
  match s.widths with
  | [] => .error .stackUnderflow
  | width :: widths =>
    .ok (width, { s with widths := widths, slots := s.slots.take (s.depth - width) })

def slotIsLive (s : StatStack) (slot : SlotRef) : Bool :=
  slot.stack == s.id && s.slots[slot.depth]? == some slot.generation

def isValid (s : StatStack) : StatRef → Bool
  | .single slot => s.slotIsLive slot
  | .aggregate _ left right => s.slotIsLive left && s.slotIsLive right

def requireValid (s : StatStack) (ref : StatRef) : Except Fault Unit :=
  if s.isValid ref then .ok () else .error (.staleReference ref.depth)

@[simp] theorem depth_occupy (s : StatStack) : s.occupy.depth = s.depth + 1 := by
  simp [depth, occupy]

@[simp] theorem size_push (s : StatStack) (shape : Shape) : (s.push shape).2.size = s.size + 1 := by
  cases shape <;> rfl

@[simp] theorem depth_push (s : StatStack) (shape : Shape) :
    (s.push shape).2.depth = s.depth + shape.width := by
  cases shape <;> simp [push, depth, occupy, Shape.width]

@[simp] theorem depth_ref_push (s : StatStack) (shape : Shape) : (s.push shape).1.depth = s.depth := by
  cases shape <;> rfl

theorem isValid_push (s : StatStack) (shape : Shape) :
    (s.push shape).2.isValid (s.push shape).1 = true := by
  cases shape <;> simp [push, isValid, slotIsLive, nextSlot, occupy, depth]

theorem pop_push (s : StatStack) (shape : Shape) :
    (s.push shape).2.pop =
      .ok (shape.width, { s with nextGeneration := s.nextGeneration + shape.width }) := by
  cases shape <;> simp [push, pop, occupy, depth, Shape.width]

end StatStack
end Rollup
