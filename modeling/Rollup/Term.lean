import Rollup.Number.Reading
import Rollup.Text.Blank

namespace Rollup

inductive Term where
  | int (value : Int64)
  | text (value : String)
  deriving DecidableEq, Hashable

namespace Term

/-- Integers come before texts; texts are compared by code points. -/
instance : Ord Term where
  compare
    | .int a, .int b => compare a b
    | .int _, .text _ => .lt
    | .text _, .int _ => .gt
    | .text a, .text b => compare a b

@[simp] theorem compare_int (a b : Int64) : compare (int a) (int b) = compare a b := rfl

@[simp] theorem compare_text (a b : String) : compare (text a) (text b) = compare a b := rfl

@[simp] theorem compare_int_text (a : Int64) (b : String) : compare (int a) (text b) = .lt := rfl

@[simp] theorem compare_text_int (a : String) (b : Int64) : compare (text a) (int b) = .gt := rfl

instance : Std.OrientedOrd Term where
  eq_swap {a b} := by
    cases a <;> cases b <;> simp [← Std.OrientedOrd.eq_swap]

instance : Std.TransOrd Term where
  isLE_trans {a b c} hab hbc := by
    cases a <;> cases b <;> cases c <;> simp_all <;> exact Std.TransOrd.isLE_trans hab hbc

instance : Std.LawfulEqOrd Term where
  eq_of_compare {a b} h := by
    cases a <;> cases b <;> simp_all

/-- The integer that a term stands for: a text stands for the one it spells between blanks. -/
def asInt : Term → Option Int64
  | .int v => some v
  | .text s => Number.Reading.int64? (Text.Blank.trim s.toList)

def display : Term → String
  | .int v => toString v
  | .text s => s

end Term

inductive View where
  | int
  | text
  deriving DecidableEq, Hashable

/-- A field of the documents and the view it is read through. -/
structure Field where
  name : String
  view : View
  deriving DecidableEq, Hashable

/-- The same field read through its integer view. -/
def Field.asInt (f : Field) : Field := { f with view := .int }

/-- The integer view takes every term that stands for an integer; the text view takes texts only. -/
def View.read : View → Term → Option Term
  | .int, t => t.asInt.map .int
  | .text, .text s => some (.text s)
  | .text, .int _ => none

end Rollup
