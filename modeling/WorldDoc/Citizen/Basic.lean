import WorldDoc.NameTable
import WorldDoc.Value.Basic

/-!
# Citizens

A citizen is one declared entity of a world: its kind, its name and its fields.
-/

namespace WorldDoc

/-- A declared entity. -/
structure Citizen where
  kind : CitizenKind
  name : String
  fields : NameTable Value

namespace Citizen

/-- The value of a field. -/
def get? (c : Citizen) (key : String) : Option Value := c.fields.get? key

/-- A citizen on one line. -/
def display (c : Citizen) : String := s!"{c.kind.word}: {c.name} with {c.fields.size} fields"

/-- Equality of citizens; the order of fields does not matter. -/
def same (a b : Citizen) : Bool :=
  a.kind == b.kind && a.name == b.name && a.fields.same Value.same b.fields

end Citizen

end WorldDoc
