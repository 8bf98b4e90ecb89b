/-!
# Kinds

The vocabulary of world documents: the kinds of citizen a document declares, the kinds of value a
field holds, the kinds of token a text is cut into and the kinds of node a syntax tree is made of.
Tokens and nodes share one numbering and one list of names. A declaration node carries its citizen
kind and a value node its value kind, so neither has to be looked up in a table.
-/

namespace WorldDoc

/-- The kinds of citizen that a world keeps by name. -/
inductive Collection where
  | timelines
  | events
  | coreEvents
  | niches
  | eras
  | generators
  | memories
  | immunes
  deriving DecidableEq, Repr

/-- The collections in the order in which a world lists them. -/
def Collection.all : List Collection :=
  [.timelines, .events, .coreEvents, .niches, .eras, .generators, .memories, .immunes]

/-- The name under which a world shows a collection. -/
def Collection.name : Collection → String
  | .timelines => "timelines"
  | .events => "events"
  | .coreEvents => "core_events"
  | .niches => "niches"
  | .eras => "eras"
  | .generators => "generators"
  | .memories => "memories"
  | .immunes => "immunes"

/-- The kinds of citizen: the one Origin of a world, and the members of its collections. -/
inductive CitizenKind where
  | origin
  | member (of : Collection)
  deriving DecidableEq, Repr

namespace CitizenKind

/-- Every kind of citizen, the Origin first. -/
def all : List CitizenKind := .origin :: Collection.all.map .member

/-- The word for a kind of citizen. -/
def word : CitizenKind → String
  | .origin => "Origin"
  | .member .timelines => "Timeline"
  | .member .events => "Event"
  | .member .coreEvents => "CoreEvent"
  | .member .niches => "Niche"
  | .member .eras => "Era"
  | .member .generators => "Generator"
  | .member .memories => "Memory"
  | .member .immunes => "Immune"

/-- The kind with a given word. -/
def ofWord? (w : String) : Option CitizenKind := all.find? fun k => k.word = w

/-- The directive that opens a declaration of a kind: its word behind an at sign. -/
def directive (k : CitizenKind) : List Char := '@' :: k.word.toList

/-- The kind that a directive declares. -/
def ofDirective? (text : List Char) : Option CitizenKind := all.find? fun k => k.directive = text

end CitizenKind

/-- The kinds of value. -/
inductive ValueKind where
  | string
  | number
  | boolean
  | list
  | identifier
  deriving DecidableEq, Repr

/-- The word for a kind of value. -/
def ValueKind.word : ValueKind → String
  | .string => "string"
  | .number => "number"
  | .boolean => "boolean"
  | .list => "list"
  | .identifier => "identifier"

/-- The kinds of token. The first four after the end of the file are trivia: the lexer keeps them
and the parser does not see them. -/
inductive TokenKind where
  | eof
  | whitespace
  | newline
  | comment
  | skipped
  | directive
  | identifier
  | string
  | number
  | trueWord
  | falseWord
  | colon
  | comma
  | lbrace
  | rbrace
  | lbracket
  | rbracket
  deriving DecidableEq, Repr

namespace TokenKind

/-- Every kind of token, in order of their numbers. -/
def all : List TokenKind :=
  [.eof, .whitespace, .newline, .comment, .skipped, .directive, .identifier, .string, .number,
    .trueWord, .falseWord, .colon, .comma, .lbrace, .rbrace, .lbracket, .rbracket]

/-- The name of a kind of token. -/
def label : TokenKind → String
  | .eof => "EOF"
  | .whitespace => "WHITESPACE"
  | .newline => "NEWLINE"
  | .comment => "COMMENT"
  | .skipped => "SKIPPED"
  | .directive => "DIRECTIVE"
  | .identifier => "IDENTIFIER"
  | .string => "STRING"
  | .number => "NUMBER"
  | .trueWord => "TRUE"
  | .falseWord => "FALSE"
  | .colon => "COLON"
  | .comma => "COMMA"
  | .lbrace => "LBRACE"
  | .rbrace => "RBRACE"
  | .lbracket => "LBRACKET"
  | .rbracket => "RBRACKET"

/-- The number of a kind of token. -/
def code : TokenKind → Nat
  | .eof => 1
  | .whitespace => 10
  | .newline => 11
  | .comment => 12
  | .skipped => 13
  | .directive => 20
  | .identifier => 21
  | .string => 22
  | .number => 23
  | .trueWord => 24
  | .falseWord => 25
  | .colon => 40
  | .comma => 41
  | .lbrace => 42
  | .rbrace => 43
  | .lbracket => 44
  | .rbracket => 45

/-- How messages call a kind of token. -/
def display : TokenKind → String
  | .eof => "end of file"
  | .whitespace => "whitespace"
  | .newline => "newline"
  | .comment => "comment"
  | .skipped => "skipped"
  | .directive => "declaration directive"
  | .identifier => "identifier"
  | .string => "string"
  | .number => "number"
  | .trueWord => "`true`"
  | .falseWord => "`false`"
  | .colon => "`:`"
  | .comma => "`,`"
  | .lbrace => "`\x7b`"
  | .rbrace => "`\x7d`"
  | .lbracket => "`[`"
  | .rbracket => "`]`"

/-- Whether tokens of a kind are trivia. -/
def isTrivia : TokenKind → Bool
  | .whitespace | .newline | .comment | .skipped => true
  | _ => false

/-- The kind with a given name. -/
def ofLabel? (l : String) : Option TokenKind := all.find? fun k => k.label = l

end TokenKind

/-- The kind of value that a single token writes, if it writes one. -/
def ValueKind.ofToken? : TokenKind → Option ValueKind
  | .string => some .string
  | .number => some .number
  | .trueWord | .falseWord => some .boolean
  | .identifier => some .identifier
  | _ => none

/-- The kinds of node. -/
inductive NodeKind where
  | root
  | error
  | sourceFile
  | declaration (kind : CitizenKind)
  | name
  | field
  | fieldKey
  | value (kind : ValueKind)
  deriving DecidableEq, Repr

namespace NodeKind

/-- Every kind of node, in order of their numbers. -/
def all : List NodeKind :=
  [.root, .error, .sourceFile] ++ CitizenKind.all.map .declaration ++ [.name, .field, .fieldKey] ++
    [ValueKind.string, .number, .boolean, .list, .identifier].map .value

/-- The name of a kind of node. -/
def label : NodeKind → String
  | .root => "ROOT"
  | .error => "ERROR"
  | .sourceFile => "SOURCE_FILE"
  | .declaration .origin => "ORIGIN_DECL"
  | .declaration (.member .timelines) => "TIMELINE_DECL"
  | .declaration (.member .events) => "EVENT_DECL"
  | .declaration (.member .coreEvents) => "CORE_EVENT_DECL"
  | .declaration (.member .niches) => "NICHE_DECL"
  | .declaration (.member .eras) => "ERA_DECL"
  | .declaration (.member .generators) => "GENERATOR_DECL"
  | .declaration (.member .memories) => "MEMORY_DECL"
  | .declaration (.member .immunes) => "IMMUNE_DECL"
  | .name => "NAME"
  | .field => "FIELD"
  | .fieldKey => "FIELD_KEY"
  | .value .string => "STRING_VALUE"
  | .value .number => "NUMBER_VALUE"
  | .value .boolean => "BOOLEAN_VALUE"
  | .value .list => "LIST_VALUE"
  | .value .identifier => "IDENTIFIER_VALUE"

/-- The number of a kind of node; nodes are numbered from 1000, above all tokens. -/
def code : NodeKind → Nat
  | .root => 1000
  | .error => 1001
  | .sourceFile => 1002
  | .declaration .origin => 1010
  | .declaration (.member .timelines) => 1011
  | .declaration (.member .events) => 1012
  | .declaration (.member .coreEvents) => 1013
  | .declaration (.member .niches) => 1014
  | .declaration (.member .eras) => 1015
  | .declaration (.member .generators) => 1016
  | .declaration (.member .memories) => 1017
  | .declaration (.member .immunes) => 1018
  | .name => 1030
  | .field => 1031
  | .fieldKey => 1032
  | .value .string => 1040
  | .value .number => 1041
  | .value .boolean => 1042
  | .value .list => 1043
  | .value .identifier => 1044

end NodeKind

/-- The kind of a syntax element: a token's or a node's. -/
inductive SyntaxKind where
  | token (kind : TokenKind)
  | node (kind : NodeKind)
  deriving DecidableEq, Repr

namespace SyntaxKind

/-- Every kind of syntax element. -/
def all : List SyntaxKind := TokenKind.all.map .token ++ NodeKind.all.map .node

/-- The name of a kind. -/
def label : SyntaxKind → String
  | .token k => k.label
  | .node k => k.label

/-- The number of a kind. -/
def code : SyntaxKind → Nat
  | .token k => k.code
  | .node k => k.code

/-- Whether elements of the kind are declarations. -/
def isDeclaration : SyntaxKind → Bool
  | .node (.declaration _) => true
  | _ => false

/-- Whether elements of the kind are values. -/
def isValue : SyntaxKind → Bool
  | .node (.value _) => true
  | _ => false

/-- The kind with a given name. -/
def ofLabel? (l : String) : Option SyntaxKind := all.find? fun k => k.label = l

end SyntaxKind

end WorldDoc
