import WorldDoc.Syntax.Kind
import WorldDoc.Text.Range

/-!
# Syntax trees

What the parser makes of a text: nodes over tokens, each with its range and the text of that range.
A node ranges from the start of its first child to the end of its last one; a node without children
is an empty place.
-/

namespace WorldDoc

/-- A token, or a node over its children, each with its range and text. -/
inductive SyntaxTree where
  | token (kind : SyntaxKind) (range : TextRange) (text : String)
  | node (kind : SyntaxKind) (range : TextRange) (text : String) (children : List SyntaxTree)
  deriving Repr

namespace SyntaxTree

/-- The kind of an element. -/
def kind : SyntaxTree → SyntaxKind
  | token k _ _ => k
  | node k _ _ _ => k

/-- The characters of an element. -/
def range : SyntaxTree → TextRange
  | token _ r _ => r
  | node _ r _ _ => r

/-- The text of an element. -/
def text : SyntaxTree → String
  | token _ _ t => t
  | node _ _ t _ => t

/-- The elements of a node; a token has none. -/
def children : SyntaxTree → List SyntaxTree
  | token _ _ _ => []
  | node _ _ _ cs => cs

/-- Whether an element is a node. -/
def isNode : SyntaxTree → Bool
  | token _ _ _ => false
  | node _ _ _ _ => true

/-- The children that are nodes. -/
def childNodes (t : SyntaxTree) : List SyntaxTree := t.children.filter isNode

/-- The first child that is a node of a certain kind. -/
def firstChildNode? (t : SyntaxTree) (kind : SyntaxKind) : Option SyntaxTree :=
  t.childNodes.find? fun c => c.kind = kind

/-- The range over some neighbouring elements, or the empty range at `offset` if there are none. -/
def span (offset : Nat) (elements : List SyntaxTree) : TextRange :=
  match elements.head?, elements.getLast? with
  | some first, some last => first.range.cover last.range
  | _, _ => .empty offset

/-- The token at a range of a text. -/
def leaf (source : SourceText) (kind : SyntaxKind) (range : TextRange) : SyntaxTree :=
  token kind range (source.slice range)

/-- The node over some elements of a text. One without elements lies at `offset`. -/
def branch (source : SourceText) (kind : SyntaxKind) (offset : Nat) (elements : List SyntaxTree) :
    SyntaxTree :=
  node kind (span offset elements) (source.slice (span offset elements)) elements

mutual

/-- The tokens of a tree from left to right, each with its kind, range and text. -/
def leaves : SyntaxTree → List (SyntaxKind × TextRange × String)
  | token k r t => [(k, r, t)]
  | node _ _ _ cs => leavesOf cs

/-- The tokens of some trees from left to right. -/
def leavesOf : List SyntaxTree → List (SyntaxKind × TextRange × String)
  | [] => []
  | t :: ts => t.leaves ++ leavesOf ts

end

/-- The leaves of two rows are those of the first and then those of the second. -/
theorem leavesOf_append (ts us : List SyntaxTree) :
    leavesOf (ts ++ us) = leavesOf ts ++ leavesOf us := by
  induction ts with
  | nil => rfl
  | cons t ts ih => rw [List.cons_append, leavesOf, leavesOf, ih, List.append_assoc]

/-- A branch has the leaves of its elements. -/
theorem leavesOf_branch (source : SourceText) (kind : SyntaxKind) (offset : Nat)
    (ts : List SyntaxTree) : leavesOf [.branch source kind offset ts] = leavesOf ts := by
  rw [branch, leavesOf, leaves, leavesOf, List.append_nil]

end SyntaxTree

end WorldDoc
