import Rollup.Session.Basic
import Rollup.Stream.Basic

namespace Rollup

/-- A term within a group. -/
structure Cell where
  term : Term
  group : GroupId
  deriving DecidableEq

namespace Cell

/-- Cells are ordered by term and then by group. -/
instance : Ord Cell where
  compare a b := (compare a.term b.term).then (compare a.group b.group)

theorem compare_eq (a b : Cell) :
    compare a b = (compare a.term b.term).then (compare a.group b.group) := rfl

instance : Std.OrientedOrd Cell where
  eq_swap {a b} := by
    rw [compare_eq, compare_eq, Ordering.swap_then, ← Std.OrientedOrd.eq_swap,
      ← Std.OrientedOrd.eq_swap]

instance : Std.TransOrd Cell where
  isLE_trans {a b c} hab hbc := by
    rw [compare_eq, Ordering.isLE_then_iff_or] at *
    rcases hab with hab | ⟨hab, gab⟩
    · rcases hbc with hbc | ⟨hbc, -⟩
      · exact .inl (Std.TransCmp.lt_trans hab hbc)
      · exact .inl (Std.TransCmp.lt_of_lt_of_eq hab hbc)
    · rcases hbc with hbc | ⟨hbc, gbc⟩
      · exact .inl (Std.TransCmp.lt_of_eq_of_lt hab hbc)
      · exact .inr ⟨Std.TransCmp.eq_trans hab hbc, Std.TransCmp.isLE_trans gab gbc⟩

instance : Std.LawfulEqOrd Cell where
  eq_of_compare {a b} h := by
    rw [compare_eq, Ordering.then_eq_eq] at h
    have sameTerm := Std.LawfulEqOrd.eq_of_compare h.1
    have sameGroup := Std.LawfulEqOrd.eq_of_compare h.2
    cases a
    cases b
    simp_all

end Cell

/-- The values of an entry's slots as numbers. -/
def Entry.numbers (e : Entry) : List Float := e.slots.map Number.Binary64.ofInt64

/-- The cell that an entry belongs to for a field: none for a document outside every group or without a
term. -/
def Entry.cell? (f : Field) (e : Entry) : Option Cell :=
  if e.group = 0 then none else (e.doc.term? f).map fun t => ⟨t, e.group⟩

namespace Session

/-- Adds the numbers of one entry to the totals of its cell. -/
def addEntry (f : Field) (width : Nat) (totals : Table Cell (List Float)) (e : Entry) :
    Table Cell (List Float) :=
  match e.cell? f with
  | none => totals
  | some cell =>
    totals.update cell fun old =>
      (old.getD (List.replicate width 0)).zipWith (· + ·) e.numbers

/-- The total of every slot per cell of a field, added up in document order. -/
def cellTotals (s : Session) (f : Field) : Table Cell (List Float) :=
  s.entries.foldl (addEntry f s.width) .empty

def fieldRecords (s : Session) (f : Field) : List Record :=
  (s.cellTotals f).toList.map fun e => ⟨f.name, e.1.term, e.1.group, e.2⟩

/-- The records of the given fields one after the other. A break names the first field. -/
def stream (s : Session) (fields : List Field) : Stream :=
  let records := fields.flatMap s.fieldRecords
  match s.failAfter with
  | none => records.map .ok
  | some n =>
    let name := (fields.head?.map (·.name)).getD ""
    (records.take n).map .ok ++
      [.error (.streamAborted name s!"stream interrupted after {n} records")]

/-- Adds one entry's value in a slot to the total of its group. -/
def addToGroup (depth : Nat) (totals : List Float) (e : Entry) : List Float :=
  if e.group = 0 then totals
  else totals.modify e.group (· + Number.Binary64.ofInt64 (e.slots.getD depth 0))

/-- The total of one slot per group id, added up in document order; group zero has none. -/
def slotTotals (s : Session) (depth : Nat) : Except Fault (List Float) :=
  if depth < s.width then
    .ok (s.entries.foldl (addToGroup depth) (List.replicate s.groupCount 0))
  else .error (.unknownReference depth)

/-- The value of a pushed statistic per group id. -/
def groupStats (s : Session) (ref : StatRef) : Except Fault (List Float) := do
  s.stack.requireValid ref
  match ref with
  | .single slot => s.slotTotals slot.depth
  | .aggregate op left right =>
    let lefts ← s.slotTotals left.depth
    let rights ← s.slotTotals right.depth
    return lefts.zipWith op.combine rights

end Session
end Rollup
