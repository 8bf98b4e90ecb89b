import WorldDoc.Check
import WorldDoc.Command.Arguments
import WorldDoc.Command.Directory
import WorldDoc.Text.LineBreak
import WorldDoc.Text.Utf8

/-!
# The command

`check FILE` reads a file, checks it and says how that went: what was found on standard output, what
is wrong on standard error, and the upshot as the exit status. Reading files is left to the caller,
who hands in a function for it; everything else is decided here.
-/

namespace WorldDoc.Command

/-- A line on standard error: a text, or an event of the log. -/
inductive Line where
  | text (text : String)
  | event (event : LogEvent)
  deriving DecidableEq, Repr

/-- A line as it is written at a time of day. -/
def Line.render (time : String) : Line → String
  | text t => t
  | event e => e.line time

/-- What the program writes and how it ends. -/
structure Outcome where
  status : Nat
  output : List String
  errors : List Line
  deriving DecidableEq, Repr

/-- The exit status when all is well. -/
def statusOk : Nat := 0

/-- The exit status when the text is sound but makes no valid world. -/
def statusSemantic : Nat := 1

/-- The exit status when the text cannot be read or departs from the grammar. -/
def statusSyntax : Nat := 2

/-- The text of a file's bytes, with its line breaks as line feeds. -/
def textOf (bytes : List UInt8) : Except Utf8.Fault String :=
  (Utf8.decode bytes).map fun text => String.ofList (LineBreak.normalize text)

/-- The text of a file, or why it cannot be had. -/
def readText (read : String → Except ReadError (List UInt8)) (path : String) :
    Except String String :=
  match read path with
  | .error e => .error (e.message path)
  | .ok bytes => (textOf bytes).mapError Utf8.Fault.message

/-- The settings that an invocation asks for. -/
def Invocation.settings (i : Invocation) : Settings :=
  let policy := if i.rejectDuplicates then .reject else .overwrite
  { duplicateFields := policy, duplicateDeclarations := policy, validate := i.validate }

/-- What is written on a failed check. A failure without a place is reported without a position. -/
def failureLines (path text : String) (failure : Failure) : List Line :=
  if failure.isSyntax then
    .text s!"Syntax error in {path}:" ::
      failure.diagnostics.map fun d => .text s!"  {d.render text path}"
  else
    let source := if failure.range.isSome then some text else none
    [.text s!"Semantic error: {failure.diagnostic.render source path}"]

/-- What the program says about a check of a text. -/
def report (i : Invocation) (path text : String) (result : CheckResult) : Outcome :=
  let opening := [s!"Parsing CLD file: {path}", s!"Content length: {text.length} characters"]
  let citizens :=
    if result.citizensBuilt then
      s!"Successfully parsed {result.citizens.length} citizens" ::
        result.citizens.map Citizen.display
    else []
  let events (more : List LogEvent) : List Line :=
    if i.verbose then (result.events ++ more).map .event else []
  match result.failure? with
  | some failure =>
    { status := if failure.isSyntax then statusSyntax else statusSemantic
      output := opening ++ citizens
      errors := events [] ++ failureLines path text failure }
  | none =>
    { status := statusOk
      output := opening ++ citizens ++ (if i.validate then ["World is valid"] else [])
      errors := events [.checkFinished path] }

/-- Checks the file of an invocation. -/
def check (read : String → Except ReadError (List UInt8)) (i : Invocation) : Outcome :=
  let path := simplifyPath i.file
  match readText read path with
  | .error reason =>
    { status := statusSyntax, output := [], errors := [.text s!"Error reading file {path}: {reason}"] }
  | .ok text =>
    match runCheck i.settings (.ofString text) with
    | .ok result => report i path text result
    | .error e => { status := statusSyntax, output := [], errors := [.text e.message] }

/-- Runs the program: the outcome of the check, or why there is none. -/
def run (read : String → Except ReadError (List UInt8)) (arguments : List String) :
    Except Stop Outcome :=
  (Invocation.ofArguments arguments).map (check read)

end WorldDoc.Command
