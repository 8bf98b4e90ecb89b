import WorldDoc.Syntax.Tree

/-!
# Building trees from the inside out

A `TreeBuilder` is a machine with brackets: `start` opens a node, `finish` closes the innermost one
over everything that was added since, `token` adds a token. Elements that are added while no node is
open are roots. `complete` yields the whole tree; it can be asked for at any time at which no node
is open, and building may go on afterwards. An operation that is out of place changes nothing.
-/

namespace WorldDoc

/-- Why a builder refuses an operation. -/
inductive BuilderError where
  | nothingOpen
  | stillOpen
  deriving DecidableEq, Repr

/-- The wording of a refusal. -/
def BuilderError.message : BuilderError → String
  | .nothingOpen => "finish_node called with empty builder stack"
  | .stillOpen => "Cannot finish tree: unclosed nodes remain on stack"

/-- An open node: its kind, its elements so far, and the offset at which it was opened. -/
structure OpenNode where
  kind : SyntaxKind
  elements : List SyntaxTree
  offset : Nat
  deriving Repr

/-- A tree in the making: the open nodes, the innermost first; the finished elements outside of
them; and the end of the last token added. -/
structure TreeBuilder where
  source : SourceText
  openNodes : List OpenNode := []
  roots : List SyntaxTree := []
  offset : Nat := 0

namespace TreeBuilder

/-- Adds a finished element to the innermost open node, or to the roots. -/
def add (b : TreeBuilder) (element : SyntaxTree) : TreeBuilder :=
  match b.openNodes with
  | [] => { b with roots := b.roots ++ [element] }
  | inner :: outer =>
    { b with openNodes := { inner with elements := inner.elements ++ [element] } :: outer }

/-- Adding an element does not change the source that the tree is built over. -/
theorem add_source (b : TreeBuilder) (element : SyntaxTree) :
    (b.add element).source = b.source := by
  unfold add
  split <;> rfl

/-- Adding an element does not depend on the offset of the builder. -/
theorem add_offset (b : TreeBuilder) (element : SyntaxTree) (n : Nat) :
    { b with offset := n }.add element = { b.add element with offset := n } := by
  obtain ⟨source, openNodes, roots, offset⟩ := b
  cases openNodes <;> rfl

/-- Opens a node. -/
def start (b : TreeBuilder) (kind : SyntaxKind) : TreeBuilder :=
  { b with openNodes := ⟨kind, [], b.offset⟩ :: b.openNodes }

/-- Adds a token. -/
def token (b : TreeBuilder) (kind : SyntaxKind) (range : TextRange) : TreeBuilder :=
  { b.add (.leaf b.source kind range) with offset := range.stop }

/-- Closes the innermost open node and yields it. -/
def finish (b : TreeBuilder) : Except BuilderError (SyntaxTree × TreeBuilder) :=
  match b.openNodes with
  | [] => .error .nothingOpen
  | inner :: outer =>
    let node := SyntaxTree.branch b.source inner.kind inner.offset inner.elements
    .ok (node, { b with openNodes := outer }.add node)

/-- The finished elements under one root node. A root node that stands alone is the whole tree
already. -/
def complete (b : TreeBuilder) : Except BuilderError (SyntaxTree × TreeBuilder) :=
  match b.openNodes with
  | _ :: _ => .error .stillOpen
  | [] =>
    let wrapped := SyntaxTree.branch b.source (.node .root) b.offset b.roots
    match b.roots with
    | [.node k r t cs] =>
      if k = .node .root then .ok (.node k r t cs, b)
      else .ok (wrapped, { b with roots := [wrapped] })
    | _ => .ok (wrapped, { b with roots := [wrapped] })

end TreeBuilder

end WorldDoc
