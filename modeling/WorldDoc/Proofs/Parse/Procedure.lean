import WorldDoc.Diagnostic.Report
import WorldDoc.Lexical.Reader
import WorldDoc.Parse.Session

/-!
# The parser as a procedure

The grammar routines say what is read from a state and which state comes after it. Here they are
written out once more as what a machine does step by step: it draws tokens from a `TokenReader` one
at a time, feeds a `TreeBuilder` as it goes, and calls its own routines. Nothing is guaranteed in
advance. A procedure need not end, so its loops are written without a measure; and it can break off
with a `Fault`: a node is closed while none is open, the tree is asked for while a node is open, or
a loop comes round without having moved on.

## Shape of a procedure

`Procedure α` takes a machine and yields a result and the machine after it, or a fault, or nothing
at all if it does not end. The loops over a body, a list and a document carry a `Watch` that has to
see the machine advance at every round. The loops that do nothing but take tokens need none. Where
procedures call themselves the call is written with `apply`, or with `|>.`: then the procedure is a
term that does not remember at which line of this file the call stands.
-/

namespace WorldDoc

/-- Reads on until there is a token that the parser sees. -/
def TokenReader.readOn (r : TokenReader) : Option (Token × TokenReader) :=
  if r.next.1.isSignificant then some r.next else r.next.2 |>.readOn
partial_fixpoint

namespace Parse

/-- Why a procedure breaks off. -/
inductive Fault where
  | builder (error : BuilderError)
  | stalled (message : String)
  | noSourceFile
  deriving DecidableEq, Repr

/-- The wording of a fault. -/
def Fault.message : Fault → String
  | .builder error => error.message
  | .stalled message => message
  | .noSourceFile => "Parser produced a tree without a SOURCE_FILE node"

/-- A parser at work: the reader and the token drawn from it last, the reports so far, the latest
first, and the tree in the making. -/
structure Machine where
  limit : NestingLimit
  reader : TokenReader
  current : Token
  reports : List Diagnostic
  builder : TreeBuilder

/-- What a machine does: it yields a result and the machine after it, breaks off with a fault, or
does not end. -/
abbrev Procedure (α : Type) := StateT Machine (ExceptT Fault Option) α

namespace Procedure

/-! ## The steps -/

/-- The kind of the current token. -/
def kind : Procedure TokenKind := return (← get).current.kind

/-- The part of the source that the current token takes. -/
def text : Procedure String := do
  let m ← get
  return m.builder.source.slice m.current.range

/-- How deep lists may be nested. -/
def limit : Procedure Nat := return (← get).limit.depth

/-- Opens a node. -/
def startNode (kind : NodeKind) : Procedure Unit :=
  modify fun m => { m with builder := m.builder.start (.node kind) }

/-- Closes the innermost open node. -/
def finishNode : Procedure Unit := do
  let m ← get
  match m.builder.finish with
  | .ok (_, builder) => set { m with builder := builder }
  | .error error => throw (.builder error)

/-- Draws the next token that the parser sees. -/
def draw : Procedure Unit := do
  let m ← get
  let (token, reader) ← liftM m.reader.readOn
  set { m with current := token, reader := reader }

/-- Adds the current token to the tree and draws the next one. At the end of the file there is
nothing to add. -/
def bump : Procedure Unit := do
  let m ← get
  if m.current.kind = .eof then return
  set { m with builder := m.builder.token (.token m.current.kind) m.current.range }
  draw

/-- Takes the current token if it has the given kind, and says whether it has. -/
def eat (expected : TokenKind) : Procedure Bool := do
  if (← kind) = expected then
    bump
    return true
  return false

/-- Adds a report, unless the latest one starts at the same place. -/
def record (found : Diagnostic) : Procedure Unit := do
  let m ← get
  match m.reports with
  | [] => set { m with reports := [found] }
  | latest :: _ =>
    if latest.range.start = found.range.start then return
    set { m with reports := found :: m.reports }

/-- Reports a finding at the current token, unless the latest report starts at the same place. -/
def report (finding : Finding) (message : Option String) : Procedure Unit := do
  record (finding.at (← get).current.range message)

/-- Takes the current token if it has the kind that is expected, and reports it otherwise. -/
def expect (expected : TokenKind) : Procedure Bool := do
  if ← eat expected then return true
  report .expectedToken s!"Expected {expected.display}, found {(← kind).display}"
  return false

/-- Looks whether the machine has moved on since the last look of a loop, and breaks off if it has
not. -/
def assertProgress (w : Watch) : Procedure Watch := do
  let current := (← get).current
  if w.position.all (· < current.range.start) then return ⟨some current.range.start⟩
  throw (.stalled
    s!"Parser stopped making progress at {current.kind.label} {current.range.display}")

/-! ## Skipping -/

/-- Takes tokens up to the next directive. -/
def bumpToDirective : Procedure Unit := do
  let current ← kind
  if current = .directive ∨ current = .eof then return
  bump
  by apply bumpToDirective
partial_fixpoint

/-- How many more brackets were opened than closed, once a token of the given kind is counted in. -/
def counted (balance : Int) (kind : TokenKind) : Int :=
  if kind = .lbracket then balance + 1
  else if kind = .rbracket then balance - 1
  else balance

/-- Takes tokens until as many brackets are closed as opened, given how many more were opened
before. -/
def bumpBalanced (balance : Int) : Procedure Unit := do
  let current ← kind
  if current = .eof then return
  bump
  if counted balance current = 0 then return
  by apply bumpBalanced; exact counted balance current
partial_fixpoint

/-- Puts the current token under a node of its own. -/
def bumpAs (kind : NodeKind) : Procedure Unit := do
  startNode kind
  bump
  finishNode

/-- Puts what stands before the next directive under an error node, and before it the current token,
whatever it is, if `includeCurrent` is set. -/
def skipUntilDirective (includeCurrent : Bool) : Procedure Unit := do
  startNode .error
  if includeCurrent then bump
  bumpToDirective
  finishNode

/-- Puts a list with everything between its brackets under an error node. -/
def skipBalancedBrackets : Procedure Unit := do
  startNode .error
  bumpBalanced 0
  finishNode

/-! ## The routines -/

mutual

/-- Reads a value within `depth` lists, and says whether one starts at the current token. -/
def value (depth : Int) : Procedure Bool := do
  let current ← kind
  if current = .lbracket then
    by apply list; exact depth + 1
    return true
  match ValueKind.ofToken? current with
  | none =>
    report .expectedValue s!"{Finding.expectedValue.message}, found {current.display}"
    return false
  | some valueKind =>
    bumpAs (.value valueKind)
    return true
partial_fixpoint

/-- Reads a list; `depth` counts the list itself and those around it. -/
def list (depth : Int) : Procedure Unit := do
  let deepest ← limit
  if depth > deepest then
    report .nestingTooDeep s!"{Finding.nestingTooDeep.message} Limit is {deepest}."
    skipBalancedBrackets
  else
    startNode (.value .list)
    bump
    by apply items; exact depth; exact {}
    let _ ← expect .rbracket
    finishNode
partial_fixpoint

/-- Reads the values of a list that is itself within `depth` lists. -/
def items (depth : Int) (w : Watch) : Procedure Unit := do
  if endsList (← kind) then return
  let w ← assertProgress w
  let found : Bool ← by apply value; exact depth
  if found then
    if ← eat .comma then by apply items; exact depth; exact w
  else
    bumpAs .error
    by apply items; exact depth; exact w
partial_fixpoint

end

/-- Reads a field: the current token as its key, a colon, a value. -/
def field : Procedure Unit := do
  startNode .field
  bumpAs .fieldKey
  if ← expect .colon then
    let _ ← value 0
  finishNode

/-- Reads the fields of a body. -/
def body (w : Watch) : Procedure Unit := do
  let current ← kind
  if endsBody current then return
  let w ← assertProgress w
  if isNameToken current then
    field
    let _ ← eat .comma
  else
    report .unexpectedToken s!"Unexpected {current.display}; expected a field `key: value`"
    bumpAs .error
  by apply body; exact w
partial_fixpoint

/-- Reads the name of a declaration, or reports that none is there. -/
def declarationName : Procedure Unit := do
  let current ← kind
  if isNameToken current then
    bumpAs .name
  else
    report .expectedToken s!"Expected a declaration name, found {current.display}"

/-- Reads a declaration. -/
def declaration : Procedure Unit := do
  let directive ← text
  match CitizenKind.ofDirective? directive.toList with
  | none =>
    report .unknownDirective s!"{Finding.unknownDirective.message} Found `{directive}`."
    skipUntilDirective true
  | some citizenKind =>
    startNode (.declaration citizenKind)
    bump
    declarationName
    if ← expect .lbrace then
      body {}
      let _ ← expect .rbrace
      finishNode
    else
      skipUntilDirective false
      finishNode

/-- Reads declarations up to the end of the file, and skips what stands between them. -/
def declarations (w : Watch) : Procedure Unit := do
  let current ← kind
  if current = .eof then return
  let w ← assertProgress w
  if current = .directive then
    declaration
  else
    report .unexpectedToken
      s!"Unexpected {current.display}; expected a declaration such as `@Origin`"
    skipUntilDirective true
  by apply declarations; exact w
partial_fixpoint

/-- Reads a whole document. -/
def sourceFile : Procedure Unit := do
  startNode .sourceFile
  declarations {}
  finishNode

/-- The whole tree. -/
def complete : Procedure SyntaxTree := do
  let m ← get
  match m.builder.complete with
  | .ok (tree, builder) =>
    set { m with builder := builder }
    return tree
  | .error error => throw (.builder error)

end Procedure

/-! ## Parsing a text -/

/-- The machine before the first token of a text that it sees. -/
def Machine.start (source : SourceText) (limit : NestingLimit) : Option Machine := do
  let (token, reader) ← (TokenReader.ofText source.toList).readOn
  return {
    limit := limit
    reader := reader
    current := token
    reports := []
    builder := { source := source } }

/-- What a machine makes of a text: the tree, what was wrong with the tokens that it has read, and
what it reported itself. -/
structure Parsed where
  root : SyntaxTree
  lexical : List Diagnostic
  reports : List Diagnostic

namespace Parsed

/-- All that is wrong with the text, in order of place. -/
def diagnostics (p : Parsed) : List Diagnostic := Diagnostic.collect [p.lexical, p.reports]

/-- The node over the declarations. -/
def sourceFile (p : Parsed) : Except Fault SyntaxTree :=
  match p.root.firstChildNode? (.node .sourceFile) with
  | some node => .ok node
  | none => .error .noSourceFile

end Parsed

/-- Parses a text step by step. -/
def runText (source : SourceText) (limit : NestingLimit) : ExceptT Fault Option Parsed := do
  let start ← liftM (Machine.start source limit)
  let (root, done) ← (do Procedure.sourceFile; Procedure.complete : Procedure _).run start
  return { root := root, lexical := done.reader.diagnostics, reports := done.reports.reverse }

end Parse

end WorldDoc
