import WorldDoc.Parse.Grammar
import WorldDoc.Syntax.Outline
import WorldDoc.Diagnostic.Report

/-!
# Parsed documents

A text is parsed as a whole: every text has a tree, and with it comes the list of all that is wrong,
from the lexer and from the parser together, in order of place. A text with diagnostics can be asked
for its `SyntaxErrors`, which say where the first of them lies.
-/

namespace WorldDoc

/-- A text, the node over all its declarations, and what is wrong with it. -/
structure Document where
  source : SourceText
  sourceFile : SyntaxTree
  diagnostics : List Diagnostic

/-- What is wrong with a text: at least one diagnostic, and the position of the first one. -/
structure SyntaxErrors where
  first : Diagnostic
  others : List Diagnostic
  position : LineCol
  deriving DecidableEq, Repr

namespace SyntaxErrors

/-- The errors of a text that has the given diagnostics, if there are any. -/
def ofDiagnostics? (source : List Char) : List Diagnostic → Option SyntaxErrors
  | [] => none
  | first :: others =>
    some ⟨first, others, (LineIndex.ofText source).lineCol first.range.start⟩

/-- All diagnostics. -/
def diagnostics (e : SyntaxErrors) : List Diagnostic := e.first :: e.others

/-- The wording: the position and message of the first error, and how many more there are. -/
def message (e : SyntaxErrors) : String :=
  let more := if e.others.isEmpty then "" else s!" (+{e.others.length} more)"
  s!"{e.position.display}: {e.first.message}{more}"

end SyntaxErrors

namespace Document

/-- Parses a text with a limit on the nesting of lists. -/
def parse (source : SourceText) (limit : NestingLimit) : Document :=
  let text := source.toList
  let result := Parse.sourceFile ⟨source, limit⟩ (.initial text)
  { source := source
    sourceFile := result.1
    diagnostics := Diagnostic.collect [lexicalDiagnostics text, result.2.reports.reverse] }

/-- The root of the tree, whose only child is the node over the declarations. -/
def root (d : Document) : SyntaxTree := .branch d.source (.node .root) 0 [d.sourceFile]

/-- Whether something is wrong with the text. -/
def hasErrors (d : Document) : Bool := Diagnostic.anyError d.diagnostics

/-- The number of declarations. -/
def declarationCount (d : Document) : Nat :=
  (d.sourceFile.childNodes.filter fun c => c.kind.isDeclaration).length

/-- The outline of the declarations, or the syntax errors if there are any. -/
def outline (d : Document) : Except SyntaxErrors Outline :=
  match SyntaxErrors.ofDiagnostics? d.source.toList d.diagnostics with
  | some errors => .error errors
  | none => .ok d.sourceFile.outline

end Document

end WorldDoc
