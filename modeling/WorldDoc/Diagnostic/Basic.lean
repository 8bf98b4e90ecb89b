import WorldDoc.Text.Range

/-!
# Diagnostics

A diagnostic says what is wrong where. Most are made from a `Finding`, which fixes everything but
the place: the code, the usual message, a hint how to mend it, and the part of the work that found
it.
-/

namespace WorldDoc

/-- How grave a diagnostic is. -/
inductive Severity where
  | error
  | warning
  deriving DecidableEq, Repr

/-- The word for a severity. -/
def Severity.word : Severity → String
  | .error => "error"
  | .warning => "warning"

/-- One thing found wrong, and where. -/
structure Diagnostic where
  code : String
  message : String
  range : TextRange
  severity : Severity := .error
  hint : Option String := none
  category : Option String := none
  deriving DecidableEq, Repr

/-- A kind of fault as diagnostics report it, apart from its place. -/
structure Finding where
  code : String
  message : String
  hint : Option String := none
  severity : Severity := .error
  category : Option String := none
  deriving DecidableEq, Repr

/-- The diagnostic of a finding at a place. A message or a hint given here replaces the usual
one. -/
def Finding.at (f : Finding) (range : TextRange) (message hint : Option String := none) :
    Diagnostic where
  code := f.code
  message := message.getD f.message
  range := range
  severity := f.severity
  hint := hint <|> f.hint
  category := f.category

namespace Finding

/-- A string literal runs to the end of its line or text without a closing delimiter. -/
def unterminatedString : Finding where
  code := "LEXER_UNTERMINATED_STRING"
  message := "Unterminated string literal."
  hint := "Close the string with `\"`, or use `\"\"\"` for text spanning several lines."
  category := "lexer"

/-- A character begins no token. -/
def unexpectedCharacter : Finding where
  code := "LEXER_UNEXPECTED_CHARACTER"
  message := "Unexpected character."
  category := "lexer"

/-- A directive names no kind of citizen. -/
def unknownDirective : Finding where
  code := "PARSER_UNKNOWN_DIRECTIVE"
  message := "Unknown declaration directive."
  hint := some ("Use one of @Origin, @Timeline, @Event, @CoreEvent, @Niche, @Era, @Generator, " ++
    "@Memory, @Immune.")
  category := "parser"

/-- Another token stands where the grammar asks for a certain one. -/
def expectedToken : Finding where
  code := "PARSER_EXPECTED_TOKEN"
  message := "Expected token"
  category := "parser"

/-- No value stands where the grammar asks for one. -/
def expectedValue : Finding where
  code := "PARSER_EXPECTED_VALUE"
  message := "Expected a value"
  hint := "Values are strings, numbers, `true`/`false`, identifiers or `[...]` lists."
  category := "parser"

/-- A token stands where neither a declaration nor a field can begin. -/
def unexpectedToken : Finding where
  code := "PARSER_UNEXPECTED_TOKEN"
  message := "Unexpected token"
  category := "parser"

/-- A list lies within more lists than the limit allows. -/
def nestingTooDeep : Finding where
  code := "PARSER_NESTING_TOO_DEEP"
  message := "Lists are nested deeper than the parser allows."
  hint := "Flatten the value or raise ParserOptions.max_nesting_depth."
  category := "parser"

/-- A tree lacks a part that every declaration has. -/
def structural : Finding where
  code := "AST_STRUCTURAL"
  message := "Parse tree is missing a required child."
  category := "ast"

/-- A key occurs twice in one declaration. -/
def duplicateField : Finding where
  code := "AST_DUPLICATE_FIELD"
  message := "Field key declared more than once."
  hint := "Keep one entry per key, or allow overwriting duplicates."
  category := "ast"

/-- A value is not written as its kind demands. -/
def valueType : Finding where
  code := "AST_VALUE_TYPE"
  message := "Value text does not match its literal type."
  category := "ast"

/-- A world has two Origins. -/
def multipleOrigin : Finding where
  code := "WORLD_MULTIPLE_ORIGIN"
  message := "Multiple @Origin declarations found."
  hint := "A world has exactly one @Origin."
  category := "world"

/-- Two citizens of one kind have the same name. -/
def duplicateDeclaration : Finding where
  code := "WORLD_DUPLICATE_DECLARATION"
  message := "Declaration name used more than once for the same kind."
  hint := "Rename one of the declarations."
  category := "world"

/-- A world has no Origin. -/
def missingOrigin : Finding where
  code := "VALIDATION_MISSING_ORIGIN"
  message := "!Origin missing: A world must have exactly one @Origin."
  hint := "Add an `@Origin <name> \x7b ... \x7d` declaration."
  category := "validation"

/-- A field holds a value of the wrong kind. -/
def typeMismatch : Finding where
  code := "VALIDATION_TYPE_MISMATCH"
  message := "Field value has the wrong type."
  category := "validation"

/-- An identifier names nothing that is declared. -/
def unresolvedReference : Finding where
  code := "VALIDATION_UNRESOLVED_REFERENCE"
  message := "Reference does not resolve to a declaration."
  category := "validation"

/-- A rule does not hold of a world. -/
def ruleFailed : Finding where
  code := "VALIDATION_RULE_FAILED"
  message := "World rule failed."
  category := "validation"

/-- Every finding. -/
def all : List Finding :=
  [unterminatedString, unexpectedCharacter, unknownDirective, expectedToken, expectedValue,
    unexpectedToken, nestingTooDeep, structural, duplicateField, valueType, multipleOrigin,
    duplicateDeclaration, missingOrigin, typeMismatch, unresolvedReference, ruleFailed]

/-- The finding with a given code. -/
def ofCode? (code : String) : Option Finding := all.find? fun f => f.code = code

end Finding

end WorldDoc
