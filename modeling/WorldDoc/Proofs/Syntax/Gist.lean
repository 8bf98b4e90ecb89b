import WorldDoc.Syntax.Outline

/-!
# The gist of a tree

What of a syntax tree does not depend on layout: its kinds, its nesting, and the texts of its
tokens. `SyntaxTree.erased` is a tree without its ranges and without the texts of its nodes. The
texts of nodes are slices of the source, with the layout between the tokens; only those of nodes
over a single token are free of it. `SyntaxTree.gist` keeps these as well, as later stages read
them. Two trees of one gist are the same once erased (`erased_eq_of_gist_eq`), and their outlines
have one gist (`gist_outline`).
-/

namespace WorldDoc

/-- Whether elements of a kind are single tokens or stand over a single token. -/
def SyntaxKind.isAtomic : SyntaxKind → Bool
  | .token _ => true
  | .node .name | .node .fieldKey => true
  | .node (.value kind) => kind ≠ .list
  | .node _ => false

namespace SyntaxTree

mutual

/-- A tree with all its texts rewritten. -/
def retexted (f : List Char → List Char) : SyntaxTree → SyntaxTree
  | token k r t => token k r (String.ofList (f t.toList))
  | node k r t cs => node k r (String.ofList (f t.toList)) (retextedAll f cs)

/-- Some trees with all their texts rewritten. -/
def retextedAll (f : List Char → List Char) : List SyntaxTree → List SyntaxTree
  | [] => []
  | t :: ts => t.retexted f :: retextedAll f ts

end

mutual

/-- A tree without its ranges and without the texts of its nodes. -/
def erased : SyntaxTree → SyntaxTree
  | token k _ t => token k (.empty 0) t
  | node k _ _ cs => node k (.empty 0) "" (erasedAll cs)

/-- Some trees without their ranges and without the texts of their nodes. -/
def erasedAll : List SyntaxTree → List SyntaxTree
  | [] => []
  | t :: ts => t.erased :: erasedAll ts

end

mutual

/-- A tree without its ranges and without the texts of nodes that may stand over several tokens. -/
def gist : SyntaxTree → SyntaxTree
  | token k _ t => token k (.empty 0) t
  | node k _ t cs => node k (.empty 0) (if k.isAtomic then t else "") (gists cs)

/-- The gists of some trees. -/
def gists : List SyntaxTree → List SyntaxTree
  | [] => []
  | t :: ts => t.gist :: gists ts

end

mutual

/-- Rewriting each text to itself changes no tree. -/
theorem retexted_id : (t : SyntaxTree) → t.retexted id = t
  | token k r t => by rw [retexted, id, String.ofList_toList]
  | node k r t cs => by rw [retexted, id, String.ofList_toList, retextedAll_id]

/-- Rewriting each text to itself changes none of some trees. -/
theorem retextedAll_id : (ts : List SyntaxTree) → retextedAll id ts = ts
  | [] => rfl
  | t :: ts => by rw [retextedAll, retexted_id, retextedAll_id]

end

/-- Trees are rewritten one by one. -/
theorem retextedAll_append (f : List Char → List Char) (ts us : List SyntaxTree) :
    retextedAll f (ts ++ us) = retextedAll f ts ++ retextedAll f us := by
  induction ts with
  | nil => rfl
  | cons t ts ih => rw [List.cons_append, retextedAll, retextedAll, ih, List.cons_append]

/-- Gists are taken one by one. -/
theorem gists_append (ts us : List SyntaxTree) : gists (ts ++ us) = gists ts ++ gists us := by
  induction ts with
  | nil => rfl
  | cons t ts ih => rw [List.cons_append, gists, gists, ih, List.cons_append]

mutual

/-- The gist of a tree keeps all that its erasure keeps. -/
theorem erased_gist : (t : SyntaxTree) → t.gist.erased = t.erased
  | token k r t => rfl
  | node k r t cs => by rw [gist, erased, erased, erasedAll_gists]

/-- The gists of some trees keep all that their erasures keep. -/
theorem erasedAll_gists : (ts : List SyntaxTree) → erasedAll (gists ts) = erasedAll ts
  | [] => rfl
  | t :: ts => by rw [gists, erasedAll, erasedAll, erased_gist, erasedAll_gists]

end

/-- Trees of one gist have one erasure. -/
theorem erased_eq_of_gist_eq {t u : SyntaxTree} (h : t.gist = u.gist) : t.erased = u.erased := by
  rw [← erased_gist t, ← erased_gist u, h]

end SyntaxTree

namespace Outline

variable (place : Option TextRange → Option TextRange)

mutual

/-- An outline with its ranges rewritten and without the texts of nodes that may stand over several
tokens. -/
def gist : Outline → Outline
  | node k t r cs => node k (if k.isAtomic then t else "") (place r) (gists cs)

/-- The gists of some outlines. -/
def gists : List Outline → List Outline
  | [] => []
  | o :: os => o.gist :: gists os

end

/-- Leaves out all ranges. -/
abbrev unplaced : Option TextRange → Option TextRange := fun _ => none

/-- The gists of some outlines are taken one by one. -/
theorem gists_eq_map (os : List Outline) : gists place os = os.map (gist place) := by
  induction os with
  | nil => rfl
  | cons o os ih => rw [gists, ih, List.map_cons]

@[simp] theorem kind_gist (o : Outline) : (o.gist place).kind = o.kind := by
  cases o
  rfl

@[simp] theorem range_gist (o : Outline) : (o.gist place).range = place o.range := by
  cases o
  rfl

@[simp] theorem children_gist (o : Outline) :
    (o.gist place).children = o.children.map (gist place) := by
  cases o
  exact gists_eq_map place _

/-- The text of an element over a single token is kept. -/
theorem text_gist {o : Outline} (h : o.kind.isAtomic = true) : (o.gist place).text = o.text := by
  cases o
  exact if_pos h

end Outline

namespace SyntaxTree

open Outline (unplaced)

/-- The gist of a node is a node. -/
theorem isNode_gist (t : SyntaxTree) : t.gist.isNode = t.isNode := by
  cases t <;> rfl

mutual

/-- The outline of a gist is, as a gist, that of the tree. -/
theorem gist_outline_gist : (t : SyntaxTree) →
    t.gist.outline.gist unplaced = t.outline.gist unplaced
  | token k r t => rfl
  | node k r t cs => by
      rw [gist, outline, outline, Outline.gist, Outline.gist, gists_outlineNodes_gists]
      cases k.isAtomic <;> rfl

/-- Tokens may be left out before gists are taken or after. -/
theorem gists_outlineNodes_gists : (ts : List SyntaxTree) →
    Outline.gists unplaced (outlineNodes (gists ts)) = Outline.gists unplaced (outlineNodes ts)
  | [] => rfl
  | t :: ts => by
      rw [gists, outlineNodes, outlineNodes, isNode_gist]
      cases t.isNode with
      | false => exact gists_outlineNodes_gists ts
      | true =>
        show Outline.gists unplaced (_ :: _) = Outline.gists unplaced (_ :: _)
        rw [Outline.gists, Outline.gists, gist_outline_gist, gists_outlineNodes_gists]

end

/-- Trees of one gist have outlines of one gist. -/
theorem gist_outline {t u : SyntaxTree} (h : t.gist = u.gist) :
    t.outline.gist unplaced = u.outline.gist unplaced := by
  rw [← gist_outline_gist t, ← gist_outline_gist u, h]

end SyntaxTree

end WorldDoc
