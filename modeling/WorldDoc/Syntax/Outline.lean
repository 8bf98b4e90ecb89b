import WorldDoc.Syntax.Tree
import WorldDoc.Text.Quoted

/-!
# Outlines

An outline is what the later stages see of a parse tree: nodes with their kind and text, without the
tokens between them. It may come from a syntax tree, and then its nodes have ranges, or be written
by hand. The dump of an outline lists its nodes, one to a line.
-/

namespace WorldDoc

/-- A tree of nodes with kind and text. The range is known where the tree stems from a text. -/
inductive Outline where
  | node (kind : SyntaxKind) (text : String) (range : Option TextRange) (children : List Outline)
  deriving Repr

namespace Outline

/-- The kind of a node. -/
def kind : Outline → SyntaxKind
  | node k _ _ _ => k

/-- The text of a node. -/
def text : Outline → String
  | node _ t _ _ => t

/-- The range of a node, if it stems from a text. -/
def range : Outline → Option TextRange
  | node _ _ r _ => r

/-- The nodes directly under a node. -/
def children : Outline → List Outline
  | node _ _ _ cs => cs

mutual

/-- The number of nodes of an outline. -/
def size : Outline → Nat
  | node _ _ _ cs => sizeAll cs + 1

/-- The number of nodes of some outlines. -/
def sizeAll : List Outline → Nat
  | [] => 0
  | o :: os => o.size + sizeAll os

end

@[simp] theorem sizeAll_nil : sizeAll [] = 0 := rfl

/-- A row of outlines has the sizes of its members taken together. -/
@[simp] theorem sizeAll_cons (o : Outline) (os : List Outline) :
    sizeAll (o :: os) = o.size + sizeAll os := rfl

/-- The sizes of two rows add up. -/
@[simp] theorem sizeAll_append (os ps : List Outline) :
    sizeAll (os ++ ps) = sizeAll os + sizeAll ps := by
  induction os with
  | nil => simp
  | cons o os ih => simp [ih, Nat.add_assoc]

/-- The members of an outline are smaller than the outline itself. -/
theorem sizeAll_children_lt (o : Outline) : sizeAll o.children < o.size := by
  cases o
  simp [children, size]

/-- The line for one node at a depth: indented by two spaces a level, its kind, and the quoted text
of a node without children. -/
def dumpLine (depth : Nat) (o : Outline) : String :=
  let label := String.ofList (List.replicate (2 * depth) ' ') ++ o.kind.label
  if o.children.isEmpty then label ++ " " ++ Quoted.encode o.text else label

/-- The lines for some outlines, each at its depth, behind the lines in `written`, the latest first.
The outlines that wait are taken in order, the children of a node before what waits behind it. -/
def dumpFrom (written : List String) : List (Nat × Outline) → List String
  | [] => written.reverse
  | (depth, o) :: waiting =>
    dumpFrom (dumpLine depth o :: written) (o.children.map (depth + 1, ·) ++ waiting)
  termination_by waiting => sizeAll (waiting.map (·.2))
  decreasing_by
    have := sizeAll_children_lt o
    simp [Function.comp_def]
    omega

/-- A listing of the nodes, each before its children. -/
def dump (o : Outline) : String := "\n".intercalate (dumpFrom [] [(0, o)])

end Outline

mutual

/-- The outline of a syntax tree. -/
def SyntaxTree.outline : SyntaxTree → Outline
  | .token k r t => .node k t (some r) []
  | .node k r t cs => .node k t (some r) (SyntaxTree.outlineNodes cs)

/-- The outlines of those among some elements that are nodes. -/
def SyntaxTree.outlineNodes : List SyntaxTree → List Outline
  | [] => []
  | t :: ts => if t.isNode then t.outline :: outlineNodes ts else outlineNodes ts

end

end WorldDoc
