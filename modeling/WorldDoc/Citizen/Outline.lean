import WorldDoc.Citizen.Basic
import WorldDoc.Log
import WorldDoc.Value.Outline

/-!
# Citizens from outlines

A declaration node becomes a citizen. Its first child has to be its name. Of the other children the
fields count, in order, and anything else is passed over; a field is a key and a value, and what may
follow them is passed over too. A key that comes again is a matter of the policy.
-/

namespace WorldDoc

namespace Citizen

/-- The key and the value of a field node. -/
def readField (node : Outline) : Except Failure (String × Value) :=
  match node.children with
  | [] => .error (.structural .missingFieldKey node.range)
  | key :: rest =>
    if key.kind ≠ .node .fieldKey then .error (.structural .missingFieldKey node.range)
    else match rest with
      | [] => .error (.structural .missingFieldValue node.range)
      | value :: _ => do return (key.text, ← Value.ofOutline value)

/-- Adds what one child of a declaration contributes to the fields so far. -/
def addChild (policy : DuplicatePolicy) (kind : CitizenKind) (name : String)
    (fields : NameTable Value) (child : Outline) : Traced Failure (NameTable Value) :=
  if child.kind ≠ .node .field then return fields
  else do
    let (key, value) ← Traced.ofExcept (readField child)
    match fields.insertUnder policy key value with
    | none => Traced.fail (.duplicateField name key child.range)
    | some insertion =>
      Traced.logIf insertion.replaced (.fieldOverwritten kind name key)
      return insertion.table

/-- The citizen that a declaration node declares. -/
def ofOutline (policy : DuplicatePolicy) (node : Outline) : Traced Failure Citizen :=
  match node.kind with
  | .node (.declaration kind) =>
    match node.children with
    | [] => Traced.fail (.structural .missingName node.range)
    | first :: rest =>
      if first.kind ≠ .node .name then Traced.fail (.structural .missingName node.range)
      else do
        let fields ← rest.foldlM (addChild policy kind first.text) .empty
        Traced.log (.citizenBuilt kind first.text fields.size)
        return ⟨kind, first.text, fields⟩
  | other => Traced.fail (.structural (.notDeclaration other) node.range)

/-- The node over the declarations of a document: the first such node under a root, or the node
itself if it is no root. -/
def unwrapRoot (root : Outline) : Except Failure Outline :=
  if root.kind = .node .root then
    match root.children.find? fun c => c.kind = .node .sourceFile with
    | some sourceFile => .ok sourceFile
    | none => .error (.structural .missingSourceFile root.range)
  else .ok root

/-- The citizens among some nodes, in order; nodes that declare nothing are passed over. -/
def ofNodes (policy : DuplicatePolicy) : List Outline → Traced Failure (List Citizen)
  | [] => return []
  | node :: later =>
    if node.kind.isDeclaration then do
      let citizen ← ofOutline policy node
      let others ← ofNodes policy later
      return citizen :: others
    else do
      Traced.log (.ignoredNode node.kind)
      ofNodes policy later

/-- The citizens that a document declares, in order. -/
def allOfOutline (policy : DuplicatePolicy) (root : Outline) : Traced Failure (List Citizen) := do
  let sourceFile ← Traced.ofExcept (unwrapRoot root)
  let citizens ← ofNodes policy sourceFile.children
  Traced.log (.citizensBuilt citizens.length)
  return citizens

end Citizen

end WorldDoc
