import WorldDoc.Parse.Grammar
import WorldDoc.Syntax.Builder

/-!
# Parsing by hand

A `Session` lets a caller steer the parser step by step: open and close nodes, take single tokens,
or run one of the grammar routines, whose element then goes where the caller stands. A `Watch` tells
a caller's own loops whether they still advance.
-/

namespace WorldDoc.Parse

/-- A parser under way: what stays the same, the tokens ahead and the reports, and the tree in the
making. The builder's offset is the end of the last token taken. -/
structure Session where
  limit : NestingLimit
  ahead : List Token
  reports : List Diagnostic
  builder : TreeBuilder

namespace Session

/-- A session before the first token of a text. -/
def start (source : SourceText) (limit : NestingLimit) : Session where
  limit := limit
  ahead := significantTokens source.toList
  reports := []
  builder := { source := source }

/-- What stays the same. -/
def context (p : Session) : Context := ⟨p.builder.source, p.limit⟩

/-- The state as the grammar routines see it. -/
def state (p : Session) : State := ⟨p.ahead, p.builder.offset, p.reports⟩

/-- The session that stands at a state of the routines. -/
def moveTo (p : Session) (s : State) : Session :=
  { p with ahead := s.ahead, reports := s.reports, builder := { p.builder with offset := s.offset } }

/-- The reports in the order in which they were made. -/
def diagnostics (p : Session) : List Diagnostic := p.reports.reverse

/-- The kind of the current token. -/
def kind (p : Session) : TokenKind := p.state.kind

/-- The range of the current token. -/
def range (p : Session) : TextRange := p.state.range p.context

/-- The text of the current token. -/
def text (p : Session) : String := String.ofList p.state.text

/-- Opens a node. -/
def startNode (p : Session) (kind : SyntaxKind) : Session :=
  { p with builder := p.builder.start kind }

/-- Closes the innermost open node. -/
def finishNode (p : Session) : Except BuilderError (SyntaxTree × Session) := do
  let (node, builder) ← p.builder.finish
  return (node, { p with builder := builder })

/-- Takes the current token; at the end of the file there is nothing to take. -/
def bump (p : Session) : Session :=
  match p.ahead with
  | [] => p
  | t :: later => { p with ahead := later, builder := p.builder.token (.token t.kind) t.range }

/-- Takes the current token if it has the given kind, and says whether it has. -/
def eat (p : Session) (kind : TokenKind) : Bool × Session :=
  if p.kind = kind then (true, p.bump) else (false, p)

/-- Reports a finding at the current token. -/
def report (p : Session) (finding : Finding) (message : Option String) : Session :=
  p.moveTo (p.state.report p.context finding message)

/-- Takes the current token if it has the kind that is expected, and reports it otherwise. -/
def expect (p : Session) (kind : TokenKind) : Bool × Session :=
  match p.eat kind with
  | (true, next) => (true, next)
  | (false, same) =>
    (false, same.report .expectedToken s!"Expected {kind.display}, found {p.kind.display}")

/-- Adds the element that a routine read, and moves to where the routine ended. -/
def adopt (p : Session) (result : SyntaxTree × State) : Session :=
  let moved := p.moveTo result.2
  { moved with builder := moved.builder.add result.1 }

/-- Reads a value within `depth` lists, and says whether one was there. -/
def value (p : Session) (depth : Int) : Bool × Session :=
  match Parse.value p.context (p.limit.levelsWithin depth) p.state with
  | (none, next) => (false, p.moveTo next)
  | (some tree, next) => (true, p.adopt (tree, next))

/-- Reads a list; `depth` counts the list itself and those around it. -/
def list (p : Session) (depth : Int) : Session :=
  p.adopt (Parse.list p.context (p.limit.levelsWithin (depth - 1)) p.state)

/-- Reads a field. -/
def field (p : Session) : Session := p.adopt (Parse.field p.context p.state)

/-- Reads a declaration. -/
def declaration (p : Session) : Session := p.adopt (Parse.declaration p.context p.state)

/-- Reads everything up to the end of the file as a document. -/
def sourceFile (p : Session) : Session := p.adopt (Parse.sourceFile p.context p.state)

/-- The whole tree. -/
def complete (p : Session) : Except BuilderError (SyntaxTree × Session) := do
  let (tree, builder) ← p.builder.complete
  return (tree, { p with builder := builder })

end Session

/-- Where a loop stood at its last look, if it has looked yet. -/
structure Watch where
  position : Option Nat := none
  deriving Repr

namespace Watch

/-- Whether the session has moved on since the last look, and the watch after this look. The first
look always finds it so. -/
def look (w : Watch) (p : Session) : Bool × Watch :=
  (w.position.all (· < p.range.start), ⟨some p.range.start⟩)

/-- The wording when a session has stalled. -/
def stalledMessage (p : Session) : String :=
  s!"Parser stopped making progress at {p.kind.label} {p.range.display}"

end Watch

end WorldDoc.Parse
