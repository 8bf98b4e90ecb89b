import WorldDoc.Log
import WorldDoc.World.Basic

/-!
# Assembling worlds

Citizens are taken one by one in their order. The first Origin becomes the Origin of the world and a
second one is a failure. Any other citizen goes into its collection under its name; a name that
comes again is a matter of the policy.
-/

namespace WorldDoc.World

/-- The world with one more citizen. -/
def place (policy : DuplicatePolicy) (w : World) (citizen : Citizen) : Traced Failure World :=
  match citizen.kind with
  | .origin =>
    match w.origin with
    | some existing => Traced.fail (.multipleOrigin existing.name citizen.name)
    | none => return { w with origin := some citizen }
  | .member c =>
    match (w.collection c).insertUnder policy citizen.name citizen with
    | none => Traced.fail (.duplicateDeclaration citizen.kind.word citizen.name)
    | some insertion => do
      Traced.logIf insertion.replaced (.declarationOverwritten citizen.kind citizen.name)
      return w.setCollection insertion.table c

/-- The world of some citizens. -/
def assemble (policy : DuplicatePolicy) (citizens : List Citizen) : Traced Failure World := do
  let w ← citizens.foldlM (place policy) empty
  Traced.log (.worldAssembled w.size)
  return w

end WorldDoc.World
