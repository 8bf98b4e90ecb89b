import WorldDoc.Parse.State

/-!
# Derivations

The grammar of world documents,

    document    := declaration*
    declaration := DIRECTIVE name "{" (field ","?)* "}"
    field       := key ":" value
    value       := STRING | NUMBER | TRUE | FALSE | IDENTIFIER | list
    list        := "[" (value ("," value)* ","?)? "]"

stated without the parser: the derivations of each nonterminal are the elements of a type, with one
constructor for each alternative and a proof for each terminal that the token is of its kind. A
derivation is asked for the tokens that it derives (`tokens`), for the depth to which it nests lists
(`nesting`), and for its syntax tree over a text (`tree`).
-/

namespace WorldDoc.Derivation

/-! ## The productions -/

/-- A token of one kind. -/
abbrev Terminal (kind : TokenKind) := { t : Token // t.kind = kind }

/-- The name of a declaration or the key of a field. -/
abbrev Name := { t : Token // t.kind = .identifier ∨ t.kind = .string }

mutual

/-- A value: a single token that writes one, or a list. -/
inductive Value where
  | scalar (token : Token) (kind : ValueKind) (writes : ValueKind.ofToken? token.kind = some kind)
  | list (opening : Terminal .lbracket) (items : Items) (closing : Terminal .rbracket)

/-- What stands between the brackets of a list: nothing, or values with a comma between any two of
them and perhaps one behind the last. -/
inductive Items where
  | none
  | last (value : Value)
  | more (value : Value) (comma : Terminal .comma) (later : Items)

end

/-- A key and its value. -/
structure Field where
  key : Name
  colon : Terminal .colon
  value : Value

/-- A declaration of one of the known kinds, with its fields and the commas behind them. -/
structure Declaration where
  kind : CitizenKind
  directive : Terminal .directive
  text_directive : directive.1.text = kind.directive
  name : Name
  opening : Terminal .lbrace
  fields : List (Field × Option (Terminal .comma))
  closing : Terminal .rbrace

/-- A document. -/
structure Document where
  declarations : List Declaration

/-! ## The tokens of a derivation -/

mutual

/-- The tokens of a value. -/
def Value.tokens : Value → List Token
  | .scalar token _ _ => [token]
  | .list opening items closing => opening.1 :: (items.tokens ++ [closing.1])

/-- The tokens between the brackets of a list. -/
def Items.tokens : Items → List Token
  | .none => []
  | .last value => value.tokens
  | .more value comma later => value.tokens ++ comma.1 :: later.tokens

end

/-- The tokens of a field. -/
def Field.tokens (f : Field) : List Token := f.key.1 :: f.colon.1 :: f.value.tokens

/-- The tokens of a field and of the comma behind it. -/
def fieldTokens (f : Field × Option (Terminal .comma)) : List Token :=
  f.1.tokens ++ (f.2.map Subtype.val).toList

/-- The tokens of a declaration. -/
def Declaration.tokens (d : Declaration) : List Token :=
  d.directive.1 :: d.name.1 :: d.opening.1 :: (d.fields.flatMap fieldTokens ++ [d.closing.1])

/-- The tokens of a document. -/
def Document.tokens (d : Document) : List Token := d.declarations.flatMap Declaration.tokens

/-! ## The nesting of lists -/

mutual

/-- How many lists lie within one another in a value. -/
def Value.nesting : Value → Nat
  | .scalar _ _ _ => 0
  | .list _ items _ => items.nesting + 1

/-- How many lists lie within one another between the brackets of a list. -/
def Items.nesting : Items → Nat
  | .none => 0
  | .last value => value.nesting
  | .more value _ later => max value.nesting later.nesting

end

/-- No list of the declaration is nested more than `depth` deep. -/
def Declaration.Within (depth : Nat) (d : Declaration) : Prop :=
  ∀ f ∈ d.fields, f.1.value.nesting ≤ depth

/-- No list of the document is nested more than `depth` deep. -/
def Document.Within (depth : Nat) (d : Document) : Prop :=
  ∀ declaration ∈ d.declarations, declaration.Within depth

/-! ## The syntax tree of a derivation -/

section Tree

variable (source : SourceText)

/-- The leaf for a token. -/
def leaf (t : Token) : SyntaxTree := .leaf source (.token t.kind) t.range

/-- The node of a kind over some elements. -/
def nodeOver (kind : NodeKind) (elements : List SyntaxTree) : SyntaxTree :=
  .branch source (.node kind) 0 elements

mutual

/-- The tree of a value. -/
def Value.tree : Value → SyntaxTree
  | .scalar token kind _ => nodeOver source (.value kind) [leaf source token]
  | .list opening items closing =>
    nodeOver source (.value .list)
      (leaf source opening.1 :: (items.trees ++ [leaf source closing.1]))

/-- The elements between the brackets of a list. -/
def Items.trees : Items → List SyntaxTree
  | .none => []
  | .last value => [value.tree]
  | .more value comma later => value.tree :: leaf source comma.1 :: later.trees

end

/-- The tree of a field. -/
def Field.tree (f : Field) : SyntaxTree :=
  nodeOver source .field
    [nodeOver source .fieldKey [leaf source f.key.1], leaf source f.colon.1, f.value.tree source]

/-- The tree of a field and the leaf of the comma behind it. -/
def fieldTrees (f : Field × Option (Terminal .comma)) : List SyntaxTree :=
  f.1.tree source :: (f.2.map fun comma => leaf source comma.1).toList

/-- The tree of a declaration. -/
def Declaration.tree (d : Declaration) : SyntaxTree :=
  nodeOver source (.declaration d.kind)
    (leaf source d.directive.1 :: nodeOver source .name [leaf source d.name.1] ::
      leaf source d.opening.1 :: (d.fields.flatMap (fieldTrees source) ++
        [leaf source d.closing.1]))

/-- The tree of a document. -/
def Document.tree (d : Document) : SyntaxTree :=
  nodeOver source .sourceFile (d.declarations.map (Declaration.tree source))

end Tree

end WorldDoc.Derivation
