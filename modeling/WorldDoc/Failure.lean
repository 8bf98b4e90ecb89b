import WorldDoc.Parse.Document

/-!
# Failures

Everything that can keep a text from becoming a valid world, from syntax errors to a broken rule. A
failure is given by its cause; its wording, its code and the diagnostic that reports it follow from
that.
-/

namespace WorldDoc

/-- What a parse tree lacks. -/
inductive TreeDefect where
  | notDeclaration (found : SyntaxKind)
  | missingName
  | missingFieldKey
  | missingFieldValue
  | missingSourceFile
  | described (message : String)
  deriving DecidableEq, Repr

/-- The wording of a defect. -/
def TreeDefect.message : TreeDefect → String
  | .notDeclaration found => s!"expected a declaration node, found {found.label}"
  | .missingName => "missing name"
  | .missingFieldKey => "missing field key"
  | .missingFieldValue => "missing field value"
  | .missingSourceFile => "missing source file"
  | .described message => message

/-- Why no valid world comes of a text. -/
inductive Failure where
  /-- The text departs from the grammar. -/
  | syntaxErrors (errors : SyntaxErrors)
  /-- A failure that only its wording describes. -/
  | general (message : String) (range : Option TextRange)
  /-- The parse tree is not that of a document. -/
  | structural (defect : TreeDefect) (range : Option TextRange)
  /-- A field of a declaration has the key of an earlier one. -/
  | duplicateField (declaration key : String) (range : Option TextRange)
  /-- The text of a value does not fit the kind of its node, or the node is no value. -/
  | valueType (rule rawText : String) (range : Option TextRange)
  /-- The world cannot be assembled, for a reason that only its wording describes. -/
  | construction (message : String) (range : Option TextRange)
  /-- There is more than one Origin. -/
  | multipleOrigin (existing duplicate : String)
  /-- A citizen has the kind and name of an earlier one. -/
  | duplicateDeclaration (kind name : String)
  /-- A rule does not hold of the world. -/
  | ruleBroken (message rule : String) (code : Option String)
  /-- The world has no Origin. -/
  | missingOrigin (rule : String)
  /-- A field holds a value of the wrong kind. -/
  | typeMismatch (message rule field : String)
  /-- An identifier names nothing. -/
  | unresolvedReference (rule name : String) (message : Option String)
  deriving DecidableEq, Repr

namespace Failure

/-- An optional text, where an empty one counts as absent. -/
def orElseEmpty (text : Option String) (fallback : String) : String :=
  match text with
  | none | some "" => fallback
  | some t => t

/-- The wording of a failure. -/
def message : Failure → String
  | syntaxErrors errors => errors.message
  | general message _ => message
  | structural defect _ => defect.message
  | duplicateField declaration key _ =>
    s!"field `{key}` declared more than once in `{declaration}`"
  | valueType rule rawText _ => s!"unexpected {rule} value: {Quoted.encode rawText}"
  | construction message _ => message
  | multipleOrigin existing duplicate =>
    s!"Multiple @Origin declarations found: `{existing}` and `{duplicate}`"
  | duplicateDeclaration kind name => s!"{kind} `{name}` declared more than once"
  | ruleBroken message _ _ => message
  | missingOrigin _ => Finding.missingOrigin.message
  | typeMismatch message _ _ => message
  | unresolvedReference _ name message =>
    orElseEmpty message s!"`{name}` does not resolve to a declaration"

/-- The place of a failure, if it has one. -/
def range : Failure → Option TextRange
  | syntaxErrors errors => some errors.first.range
  | general _ r | structural _ r | duplicateField _ _ r | valueType _ _ r | construction _ r => r
  | _ => none

/-- The finding that a failure is reported as. -/
def finding : Failure → Finding
  | syntaxErrors _ | general _ _ | structural _ _ | construction _ _ => .structural
  | duplicateField _ _ _ => .duplicateField
  | valueType _ _ _ => .valueType
  | multipleOrigin _ _ => .multipleOrigin
  | duplicateDeclaration _ _ => .duplicateDeclaration
  | ruleBroken _ _ _ => .ruleFailed
  | missingOrigin _ => .missingOrigin
  | typeMismatch _ _ _ => .typeMismatch
  | unresolvedReference _ _ _ => .unresolvedReference

/-- The code of a failure: that of the first syntax error, that which a rule gives itself, or the
usual one. -/
def code : Failure → String
  | syntaxErrors errors => errors.first.code
  | ruleBroken _ _ code => orElseEmpty code Finding.ruleFailed.code
  | f => f.finding.code

/-- The rule that a failure names: one of the world, or that of the literals of a kind. -/
def rule? : Failure → Option String
  | valueType rule _ _ | ruleBroken _ rule _ | missingOrigin rule | typeMismatch _ rule _
  | unresolvedReference rule _ _ => some rule
  | _ => none

/-- The diagnostic that reports a failure. A failure without a place is reported at the start. -/
def diagnostic : Failure → Diagnostic
  | syntaxErrors errors => errors.first
  | f => { f.finding.at (f.range.getD (.empty 0)) f.message with code := f.code }

/-- All diagnostics that report a failure: every syntax error, or the one diagnostic. -/
def diagnostics : Failure → List Diagnostic
  | syntaxErrors errors => errors.diagnostics
  | f => [f.diagnostic]

/-- Whether the text departs from the grammar. -/
def isSyntax : Failure → Bool
  | syntaxErrors _ => true
  | _ => false

/-- Whether the failure came up while the world was assembled. -/
def isConstruction : Failure → Bool
  | construction _ _ | multipleOrigin _ _ | duplicateDeclaration _ _ => true
  | _ => false

/-- Whether a rule failed. -/
def isValidation : Failure → Bool
  | ruleBroken _ _ _ | missingOrigin _ | typeMismatch _ _ _ | unresolvedReference _ _ _ => true
  | _ => false

end Failure

end WorldDoc
