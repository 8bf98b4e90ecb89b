import WorldDoc.Failure
import WorldDoc.Value.Basic
import WorldDoc.Value.Literal

/-!
# Values from outlines

A value node becomes a value: a list node the list of its children's values, any other the value
that its text writes. The first node from the left that is no value, or whose text does not fit its
kind, is the failure of the whole.
-/

namespace WorldDoc

namespace Outline

/-- The nodes directly under a list node. -/
def items? (o : Outline) : Option (List Outline) :=
  if o.kind = .node (.value .list) then some o.children else none

/-- Twice the size of a row is the total of twice the sizes of its members. -/
theorem total_two_mul_size (os : List Outline) :
    Nesting.total (fun o => 2 * o.size) os = 2 * sizeAll os := by
  induction os with
  | nil => rfl
  | cons o os ih => simp [ih, Nat.mul_add]

/-- No outline is empty. -/
theorem size_pos (o : Outline) : 0 < o.size := Nat.lt_of_le_of_lt (Nat.zero_le _)
  (sizeAll_children_lt o)

/-- How list nodes are nested. -/
def nesting : Nesting Outline where
  items? := items?
  weight o := 2 * o.size
  weight_pos o := by have := size_pos o; omega
  weight_items {o items} h := by
    have hlt := sizeAll_children_lt o
    have hitems : items = o.children := by
      simp only [items?] at h
      split at h <;> simp_all
    rw [total_two_mul_size, hitems]
    omega

end Outline

namespace Value

/-- The value of a node that is not a list: what its text writes, according to its kind. -/
def ofScalar? (o : Outline) : Option Value :=
  match o.kind with
  | .node (.value .string) =>
    (Literal.string? o.text.toList).map fun t => .string (String.ofList t)
  | .node (.value .number) => (Literal.number? o.text.toList).map .number
  | .node (.value .boolean) => (Literal.boolean? o.text.toList).map .boolean
  | .node (.value .identifier) => some (.identifier o.text)
  | _ => none

/-- The failure when a node has no value. -/
def scalarFailure (o : Outline) : Failure := .valueType o.kind.label o.text o.range

/-- The value of a node that is not a list, or the failure when it has none. -/
def ofScalar (o : Outline) : Except Failure Value :=
  match ofScalar? o with
  | some v => .ok v
  | none => .error (scalarFailure o)

/-- The value of a node. -/
def ofOutline (o : Outline) : Except Failure Value := Outline.nesting.convert ofScalar .list o

end Value

end WorldDoc
