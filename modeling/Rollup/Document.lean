import Rollup.Term

namespace Rollup

/-- The fields of a document, the one set last first. -/
structure Document where
  fields : List (String × Term)
  deriving DecidableEq

namespace Document

def empty : Document := ⟨[]⟩

def set (d : Document) (field : String) (t : Term) : Document := ⟨(field, t) :: d.fields⟩

/-- The term set last under a field. -/
def get? (d : Document) (field : String) : Option Term := d.fields.lookup field

theorem get?_set (d : Document) (field field' : String) (t : Term) :
    (d.set field t).get? field' = if field' = field then some t else d.get? field' := by
  simp only [get?, set, List.lookup_cons]
  split
  next same => simp [eq_of_beq same]
  next other => simp [ne_of_beq_false other]

/-- A document's term as its field's view takes it. -/
def term? (d : Document) (f : Field) : Option Term := (d.get? f.name).bind f.view.read

/-- The integer under a field, zero where there is none. -/
def int (d : Document) (field : String) : Int64 := ((d.get? field).bind Term.asInt).getD 0

end Document
end Rollup
