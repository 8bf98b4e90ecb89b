import WorldDoc.Log
import WorldDoc.World.Basic

/-!
# Rules of worlds

A rule has a name and a code, and either holds of a world or fails for a reason. Two rules are built
in: that there is an Origin, and that the Origin's anchors are core events. Any other is a
predicate.

A list of rules is itself checked before any rule is: names are unique and codes begin alike. The
rules are then checked in order until one fails.
-/

namespace WorldDoc

/-- A condition on worlds. -/
inductive Rule where
  /-- There is an Origin. -/
  | originExists (name code : String)
  /-- Every identifier in a field of the Origin is the name of a core event. -/
  | coreAnchorsResolved (name code field : String)
  /-- A predicate holds; a message may say what it is about. -/
  | predicate (name code : String) (holds : World → Bool) (message : Option String)

/-- What can be wrong with the anchors of a world. -/
inductive AnchorFault where
  | noOrigin
  | notList
  | notIdentifier
  | undeclared (name : String)
  deriving DecidableEq, Repr

/-- What can be wrong with a list of rules. -/
inductive RuleListError where
  | repeatedName (name : String)
  | malformedCode (name code : String)
  deriving DecidableEq, Repr

/-- The wording of a fault in a list of rules. -/
def RuleListError.message : RuleListError → String
  | repeatedName name => s!"World rule `{name}` is registered more than once."
  | malformedCode name code =>
    s!"World rule `{name}` has invalid code `{code}`; expected `VALIDATION_` prefix."

namespace World

/-- What is wrong with one anchor: it has to be an identifier, and the name of a core event. A plain
event of that name does not count. -/
def anchorFault? (w : World) : Value → Option AnchorFault
  | .identifier name => if w.coreEvents.contains name then none else some (.undeclared name)
  | _ => some .notIdentifier

/-- What is wrong with the anchors of a world, which a field of the Origin lists: the first fault in
the order of the list. Without the field nothing is. -/
def anchorsFault? (w : World) (field : String) : Option AnchorFault :=
  match w.origin with
  | none => some .noOrigin
  | some origin =>
    match origin.get? field with
    | none => none
    | some (.list anchors) => anchors.findSome? w.anchorFault?
    | some _ => some .notList

end World

namespace Rule

/-- The name of the field with the anchors of a world. -/
def coreAnchorsField : String := "核心锚点"

/-- The beginning of every code of a rule. -/
def codePrefix : String := "VALIDATION_"

/-- The rule that there is an Origin, under its usual name. -/
def standardOrigin : Rule := originExists "OriginExists" Finding.missingOrigin.code

/-- The rule that the anchors are core events, under its usual name. -/
def standardAnchors : Rule :=
  coreAnchorsResolved "CoreAnchorsResolved" Finding.unresolvedReference.code coreAnchorsField

/-- The rules that every world is checked by if no others are given. -/
def standard : List Rule := [standardOrigin, standardAnchors]

/-- The name of a rule. -/
def name : Rule → String
  | originExists name _ | coreAnchorsResolved name _ _ | predicate name _ _ _ => name

/-- The code of a rule. -/
def code : Rule → String
  | originExists _ code | coreAnchorsResolved _ code _ | predicate _ code _ _ => code

/-- The failure for a fault of the anchors, which `label` calls by their place. -/
def anchorFailure (rule field label : String) : AnchorFault → Failure
  | .noOrigin => .missingOrigin rule
  | .notList => .typeMismatch s!"{label} must be a list" rule field
  | .notIdentifier => .typeMismatch s!"{label} must contain only identifiers" rule field
  | .undeclared name =>
    .unresolvedReference rule name s!"CoreEvent '{name}' referenced in {label} is not defined"

/-- The failure of a rule in a world, if it does not hold there. -/
def check (w : World) : Rule → Option Failure
  | originExists name _ => if w.origin.isNone then some (.missingOrigin name) else none
  | coreAnchorsResolved name _ field =>
    let label := match w.origin with
      | none => field
      | some origin => s!"{origin.kind.word}.{field}"
    (w.anchorsFault? field).map (anchorFailure name field label)
  | predicate name code holds message =>
    if holds w then none
    else some (.ruleBroken (Failure.orElseEmpty message s!"world rule `{name}` failed") name code)

/-- The first fault of a list of rules, given the names of the rules before it. -/
def listFaultAfter? (seen : List String) : List Rule → Option RuleListError
  | [] => none
  | rule :: later =>
    if rule.name ∈ seen then some (.repeatedName rule.name)
    else if !rule.code.startsWith codePrefix then some (.malformedCode rule.name rule.code)
    else listFaultAfter? (rule.name :: seen) later

/-- The first fault of a list of rules: a name that an earlier rule has, or a malformed code. -/
def listFault? (rules : List Rule) : Option RuleListError := listFaultAfter? [] rules

/-- There is nothing wrong with the list of the usual rules. -/
theorem listFault?_standard : listFault? standard = none := by
  decide +kernel

/-- The rules that are checked in a world, in order and each with its result: all up to the first
that fails. -/
def checks (w : World) : List Rule → List (Rule × Option Failure)
  | [] => []
  | rule :: later =>
    match rule.check w with
    | none => (rule, none) :: checks w later
    | some failure => [(rule, some failure)]

/-- What is recorded of a check. -/
def checkEvent : Rule × Option Failure → LogEvent
  | (rule, none) => .rulePassed rule.name
  | (rule, some failure) => .ruleFailed rule.name failure.message

/-- Checks a world by some rules. The first failure is the outcome. -/
def validate (rules : List Rule) (w : World) : Traced Failure Unit where
  events := (checks w rules).map checkEvent
  outcome := match (checks w rules).findSome? Prod.snd with
    | some failure => .error failure
    | none => .ok ()

/-- Checks a world by some rules, which are looked over first: a list that is at fault is refused,
and none of its rules is checked. -/
def enforce (rules : List Rule) (w : World) : Except RuleListError (Traced Failure Unit) :=
  match listFault? rules with
  | some fault => .error fault
  | none => .ok (validate rules w)

end Rule

end WorldDoc
