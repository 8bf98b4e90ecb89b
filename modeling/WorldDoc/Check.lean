import WorldDoc.Citizen.Outline
import WorldDoc.World.Assembly
import WorldDoc.World.Rule

/-!
# From a text to a checked world

The whole way in one call: parse a text, build its citizens, assemble the world, check the rules.
`loadWorld` stops at the first failure. `runCheck` goes the same way by itself and yields what there
is to report, with all citizens if they could be built. Both refuse settings that make no sense
before they come into play.
-/

namespace WorldDoc

/-- A way to make an outline of a text. All that it can find wrong are syntax errors. -/
structure Grammar where
  parse : SourceText → Traced SyntaxErrors Outline

/-- What is recorded of a parsed document. -/
def Document.event (d : Document) : LogEvent :=
  .parsed d.source.length d.declarationCount d.diagnostics.length

/-- The grammar of world documents, with a limit on the nesting of lists. -/
def Grammar.standard (limit : NestingLimit := .standard) : Grammar where
  parse source :=
    let document := Document.parse source limit
    ⟨[document.event], document.outline⟩

/-- Why settings make no sense. -/
inductive SetupError where
  | grammarWithLimit
  | ruleList (error : RuleListError)
  deriving DecidableEq, Repr

/-- The wording of an error in the settings. -/
def SetupError.message : SetupError → String
  | grammarWithLimit => "Pass either grammar or parser_options, not both"
  | ruleList error => error.message

/-- How a text is to be loaded and checked. What is not given is as usual. -/
structure Settings where
  grammar : Option Grammar := none
  limit : Option NestingLimit := none
  duplicateFields : DuplicatePolicy := .overwrite
  duplicateDeclarations : DuplicatePolicy := .overwrite
  rules : Option (List Rule) := none
  validate : Bool := true

namespace Settings

/-- The grammar to parse with. A limit goes with the usual grammar only. -/
def chosenGrammar (s : Settings) : Except SetupError Grammar :=
  match s.grammar, s.limit with
  | some _, some _ => .error .grammarWithLimit
  | some grammar, none => .ok grammar
  | none, limit => .ok (.standard (limit.getD .standard))

/-- The rules to check. -/
def chosenRules (s : Settings) : List Rule := s.rules.getD Rule.standard

/-- What is wrong with the rules, if they are to be checked at all. -/
def ruleFault? (s : Settings) : Option RuleListError :=
  if s.validate then Rule.listFault? s.chosenRules else none

end Settings

/-- The citizens that a text declares, by a grammar and a policy for fields. -/
def citizensBy (grammar : Grammar) (policy : DuplicatePolicy) (source : SourceText) :
    Traced Failure (List Citizen) := do
  let parsed := grammar.parse source
  let outline ← (⟨parsed.events, parsed.outcome.mapError .syntaxErrors⟩ : Traced Failure Outline)
  Citizen.allOfOutline policy outline

/-- The citizens that a text declares. -/
def loadCitizens (settings : Settings) (source : SourceText) :
    Except SetupError (Traced Failure (List Citizen)) := do
  let grammar ← settings.chosenGrammar
  return citizensBy grammar settings.duplicateFields source

/-- The checked world of citizens that are being built. The rules come into play once the world is
assembled. -/
def worldOf (settings : Settings) (building : Traced Failure (List Citizen)) :
    Except SetupError (Traced Failure World) :=
  let assembling : Traced Failure World := do
    let citizens ← building
    World.assemble settings.duplicateDeclarations citizens
  match assembling.outcome, settings.ruleFault? with
  | .ok _, some fault => .error (.ruleList fault)
  | _, _ => .ok do
    let w ← assembling
    if settings.validate then Rule.validate settings.chosenRules w
    return w

/-- The checked world of a text, or the first failure. -/
def loadWorld (settings : Settings) (source : SourceText) :
    Except SetupError (Traced Failure World) := do
  worldOf settings (← loadCitizens settings source)

/-- What a check has to report: the citizens if all could be built, the world or the failure, and
what was recorded. -/
structure CheckResult where
  citizens : List Citizen
  outcome : Except Failure World
  events : List LogEvent

/-- The report of a check that broke off. The failure is recorded behind everything else. -/
def CheckResult.broken (citizens : List Citizen) (events : List LogEvent) (failure : Failure) :
    CheckResult where
  citizens := citizens
  outcome := .error failure
  events := events ++ [.checkFailed failure.code failure.message]

/-- Checks a text and reports. The stages follow each other here as they do when a text is loaded,
but the citizens are kept when a later stage fails. -/
def runCheck (settings : Settings) (source : SourceText) : Except SetupError CheckResult := do
  let grammar ← settings.chosenGrammar
  let parsed := grammar.parse source
  match parsed.outcome with
  | .error errors => return .broken [] parsed.events (.syntaxErrors errors)
  | .ok outline =>
    let built := Citizen.allOfOutline settings.duplicateFields outline
    match built.outcome with
    | .error failure => return .broken [] (parsed.events ++ built.events) failure
    | .ok citizens =>
      let assembled := World.assemble settings.duplicateDeclarations citizens
      let events := parsed.events ++ built.events ++ assembled.events
      match assembled.outcome with
      | .error failure => return .broken citizens events failure
      | .ok w =>
        if settings.validate then
          if let some fault := Rule.listFault? settings.chosenRules then
            throw (.ruleList fault)
          let checked := Rule.validate settings.chosenRules w
          match checked.outcome with
          | .error failure => return .broken citizens (events ++ checked.events) failure
          | .ok () => return ⟨citizens, .ok w, events ++ checked.events⟩
        else return ⟨citizens, .ok w, events⟩

namespace CheckResult

/-- The world, if the check succeeded. -/
def world? (r : CheckResult) : Option World := r.outcome.toOption

/-- The failure, if the check failed. -/
def failure? (r : CheckResult) : Option Failure :=
  match r.outcome with
  | .ok _ => none
  | .error failure => some failure

/-- The diagnostics that report the failure. -/
def diagnostics (r : CheckResult) : List Diagnostic :=
  match r.failure? with
  | none => []
  | some failure => failure.diagnostics

/-- Whether the check failed. -/
def hasErrors (r : CheckResult) : Bool := r.failure?.isSome

/-- Whether the text departs from the grammar. -/
def isSyntaxError (r : CheckResult) : Bool := r.failure?.any Failure.isSyntax

/-- Whether every citizen was built, even if no valid world came of them. -/
def citizensBuilt (r : CheckResult) : Bool :=
  r.failure?.all fun f => f.isConstruction || f.isValidation

end CheckResult

end WorldDoc
