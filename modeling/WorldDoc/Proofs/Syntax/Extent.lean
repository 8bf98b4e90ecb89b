import WorldDoc.Syntax.Tree

/-!
# Where the elements of a tree lie

A node takes its range from its first and its last child alone. So it lies exactly where its tokens
do only if the children are in order and if the first of them is not an empty place before trivia.
Here it is said what makes a tree so (`Placed`), element by element from left to right with the end
of the last token before each, and what follows for every element wherever it occurs (`Exact`).

## Shape of the proof

Placed elements stand in a row: each starts no earlier than the one before it ends (`Row`). The
range over a row begins with its first element and ends with its last one, whatever the elements are
(`Row.start_span`, `Row.stop_span`). That the elements of a placed node are a row, and that an
element ends with the last token so far, are proved together by recursion on the tree
(`Placed.bounds`, `Laid.row`).
-/

namespace WorldDoc.SyntaxTree

/-- A token of a tree, with its kind, range and text. -/
abbrev Leaf := SyntaxKind × TextRange × String

/-- The end of the last of some tokens, or `offset` if there are none. -/
def endOf (offset : Nat) (tokens : List Leaf) : Nat :=
  (tokens.getLast?.map fun t => t.2.1.stop).getD offset

@[simp] theorem endOf_nil (offset : Nat) : endOf offset [] = offset := rfl

/-- The end of some tokens and later ones is the end of the later ones, if there are any. -/
theorem endOf_append (offset : Nat) (tokens later : List Leaf) :
    endOf offset (tokens ++ later) = endOf (endOf offset tokens) later := by
  rw [endOf, endOf, endOf, List.getLast?_append]
  cases later.getLast? <;> rfl

/-! ## Elements in a row -/

/-- `Row offset elements stop`: the elements stand one behind the other from `offset` to `stop`. -/
inductive Row : Nat → List SyntaxTree → Nat → Prop where
  | nil (offset : Nat) : Row offset [] offset
  | cons {offset stop : Nat} {t : SyntaxTree} {later : List SyntaxTree}
    (hstart : offset ≤ t.range.start) (hlater : Row t.range.stop later stop) :
    Row offset (t :: later) stop

namespace Row

variable {offset stop : Nat} {elements later : List SyntaxTree} {t first : SyntaxTree}

/-- A row does not end before it begins. -/
theorem le (h : Row offset elements stop) : offset ≤ stop := by
  induction h with
  | nil offset => exact Nat.le_refl _
  | cons hstart hlater ih => exact Nat.le_trans (Nat.le_trans hstart (TextRange.start_le_stop _)) ih

/-- The elements of a row lie within its bounds. -/
theorem bounds_of_mem (h : Row offset elements stop) (ht : t ∈ elements) :
    offset ≤ t.range.start ∧ t.range.stop ≤ stop := by
  induction h with
  | nil offset => exact absurd ht List.not_mem_nil
  | @cons offset stop u later hstart hlater ih =>
    rcases List.mem_cons.mp ht with rfl | ht
    · exact ⟨hstart, hlater.le⟩
    · obtain ⟨hle, hstop⟩ := ih ht
      exact ⟨Nat.le_trans (Nat.le_trans hstart u.range.start_le_stop) hle, hstop⟩

/-- The elements of a row come one behind the other. -/
theorem pairwise (h : Row offset elements stop) :
    elements.Pairwise fun a b => a.range.stop ≤ b.range.start := by
  induction h with
  | nil offset => exact List.Pairwise.nil
  | cons hstart hlater ih => exact ih.cons fun u hu => (hlater.bounds_of_mem hu).1

/-- A row ends with its last element. -/
theorem stop_getLast (h : Row offset elements stop) {last : SyntaxTree}
    (hlast : elements.getLast? = some last) : last.range.stop = stop := by
  induction h with
  | nil offset => contradiction
  | @cons offset stop u later hstart hlater ih =>
    rw [List.getLast?_cons] at hlast
    cases hother : later.getLast? with
    | none =>
      obtain rfl := List.getLast?_eq_none_iff.mp hother
      cases hlater
      rw [← Option.some.inj hlast]
      rfl
    | some other =>
      rw [hother] at hlast
      exact ih (hother.trans hlast)

/-- The range over a row begins where its first element does. -/
theorem start_span (h : Row offset (first :: later) stop) :
    (span offset (first :: later)).start = first.range.start := by
  have hlast := List.getLast?_eq_some_getLast (List.cons_ne_nil first later)
  rw [span, List.head?_cons, hlast]
  rcases List.mem_cons.mp (List.getLast_mem (List.cons_ne_nil first later)) with heq | hmem
  · rw [heq]
    exact Nat.min_self _
  · have hle := List.rel_of_pairwise_cons h.pairwise hmem
    exact Nat.min_eq_left (Nat.le_trans first.range.start_le_stop hle)

/-- The range over a row ends where the row does. -/
theorem stop_span (h : Row offset elements stop) : (span offset elements).stop = stop := by
  cases elements with
  | nil =>
    cases h
    rfl
  | cons first later =>
    have hlast := List.getLast?_eq_some_getLast (List.cons_ne_nil first later)
    rw [span, List.head?_cons, hlast]
    show max first.range.stop _ = stop
    rw [h.stop_getLast hlast]
    exact Nat.max_eq_right (h.bounds_of_mem List.mem_cons_self).2

end Row

/-! ## Placed elements -/

/-- If the first of the elements holds no token, none does. -/
def Led : List SyntaxTree → Prop
  | [] => True
  | first :: later => first.leaves = [] → leavesOf later = []

mutual

/-- `Placed source offset t`: behind tokens that end at `offset` the element stands at its place in
the text, and so do all elements below it. -/
def Placed (source : SourceText) (offset : Nat) : SyntaxTree → Prop
  | token _ range text =>
    offset ≤ range.start ∧ range.stop ≤ source.length ∧ text = source.slice range
  | node _ range text elements =>
    range = span offset elements ∧ text = source.slice range ∧ Led elements ∧
      Laid source offset elements

/-- Some elements stand at their places one behind the other. -/
def Laid (source : SourceText) (offset : Nat) : List SyntaxTree → Prop
  | [] => True
  | t :: later => Placed source offset t ∧ Laid source (endOf offset t.leaves) later

end

section Placed

variable {source : SourceText}

/-- Elements are laid out together if the first are and the others are behind them. -/
theorem laid_append {offset : Nat} {ts us : List SyntaxTree} :
    Laid source offset (ts ++ us) ↔
      Laid source offset ts ∧ Laid source (endOf offset (leavesOf ts)) us := by
  induction ts generalizing offset with
  | nil => simp [Laid, leavesOf]
  | cons t ts ih => rw [List.cons_append, Laid, Laid, ih, leavesOf, endOf_append, and_assoc]

mutual

/-- A placed element ends with the last token so far. -/
theorem Placed.bounds : (t : SyntaxTree) → {offset : Nat} → Placed source offset t →
    offset ≤ t.range.start ∧ t.range.stop = endOf offset t.leaves
  | token _ _ _, _, h => ⟨h.1, rfl⟩
  | node _ _ _ [], offset, h => by
      obtain ⟨rfl, -⟩ := h
      exact ⟨Nat.le_refl _, rfl⟩
  | node _ _ _ (first :: later), offset, h => by
      obtain ⟨rfl, -, -, hlaid⟩ := h
      have hrow := Laid.row (first :: later) hlaid
      refine ⟨?_, hrow.stop_span⟩
      show offset ≤ (span offset (first :: later)).start
      rw [hrow.start_span]
      exact (hrow.bounds_of_mem List.mem_cons_self).1

/-- Elements that are laid out are a row, up to the end of their tokens. -/
theorem Laid.row : (ts : List SyntaxTree) → {offset : Nat} → Laid source offset ts →
    Row offset ts (endOf offset (leavesOf ts))
  | [], offset, _ => .nil offset
  | t :: ts, offset, h => by
      obtain ⟨hstart, hstop⟩ := Placed.bounds t h.1
      have hlater := Laid.row ts h.2
      rw [leavesOf, endOf_append]
      rw [← hstop] at hlater ⊢
      exact .cons hstart hlater

end

/-- A placed element begins with its first token. -/
theorem Placed.start_eq : (t : SyntaxTree) → {offset : Nat} → {token : Leaf} →
    Placed source offset t → t.leaves.head? = some token → t.range.start = token.2.1.start
  | .token _ _ _, _, _, _, htoken => by
      rw [← Option.some.inj htoken]
      rfl
  | node _ _ _ [], _, _, _, htoken => absurd htoken nofun
  | node _ _ _ (first :: later), offset, entry, h, htoken => by
      obtain ⟨rfl, -, hled, hlaid⟩ := h
      have hfirst : first.leaves.head? = some entry := by
        cases hleaves : first.leaves with
        | nil =>
          rw [leaves, leavesOf, hleaves, hled hleaves] at htoken
          contradiction
        | cons l ls =>
          rw [leaves, leavesOf, hleaves] at htoken
          exact htoken
      have hspan := (Laid.row (first :: later) hlaid).start_span
      exact hspan.trans (Placed.start_eq first hlaid.1 hfirst)

mutual

/-- The tokens of an element in its place end within the text. -/
theorem Placed.endOf_le : (t : SyntaxTree) → {offset : Nat} → Placed source offset t →
    offset ≤ source.length → endOf offset t.leaves ≤ source.length
  | token _ _ _, _, h, _ => h.2.1
  | node _ _ _ elements, _, h, hoffset => Laid.endOf_le elements h.2.2.2 hoffset

/-- The tokens of elements that are laid out end within the text. -/
theorem Laid.endOf_le : (ts : List SyntaxTree) → {offset : Nat} → Laid source offset ts →
    offset ≤ source.length → endOf offset (leavesOf ts) ≤ source.length
  | [], _, _, hoffset => hoffset
  | t :: ts, _, h, hoffset => by
      rw [leavesOf, endOf_append]
      exact Laid.endOf_le ts h.2 (Placed.endOf_le t h.1 hoffset)

end

/-- An element in its place ends within the text. -/
theorem Placed.stop_le {t : SyntaxTree} {offset : Nat} (h : Placed source offset t)
    (hoffset : offset ≤ source.length) : t.range.stop ≤ source.length := by
  rw [(Placed.bounds t h).2]
  exact Placed.endOf_le t h hoffset

end Placed

/-! ## Exact elements -/

/-- `Occurs root before t`: the element `t` occurs in the tree `root`, and `before` are the tokens
of the tree in front of it. -/
inductive Occurs (root : SyntaxTree) : List Leaf → SyntaxTree → Prop where
  | root : Occurs root [] root
  | child {before : List Leaf} {parent t : SyntaxTree} {earlier later : List SyntaxTree}
    (h : Occurs root before parent) (hchildren : parent.children = earlier ++ t :: later) :
    Occurs root (before ++ leavesOf earlier) t

/-- An element behind the tokens in `before` that has the range which its tokens give it. -/
structure Exact (source : SourceText) (before : List Leaf) (t : SyntaxTree) : Prop where
  /-- The text is that of the range. -/
  text : t.text = source.slice t.range
  /-- The range starts with the first token. -/
  start : ∀ token, t.leaves.head? = some token → t.range.start = token.2.1.start
  /-- The range stops with the last token. -/
  stop : ∀ token, t.leaves.getLast? = some token → t.range.stop = token.2.1.stop
  /-- An element without tokens is the place behind the last token before it. -/
  empty : t.leaves = [] → t.range = .empty (endOf 0 before)
  /-- The children stand one behind the other. -/
  ordered : t.children.Pairwise fun a b => a.range.stop ≤ b.range.start
  /-- The children lie within the element. -/
  inside : ∀ child ∈ t.children,
    t.range.start ≤ child.range.start ∧ child.range.stop ≤ t.range.stop
  /-- The element lies within the text. -/
  within : t.range.stop ≤ source.length

section Exact

variable {source : SourceText} {offset : Nat} {root t : SyntaxTree} {before : List Leaf}

/-- The text of an element in its place is what stands at its range. -/
theorem Placed.text_eq (h : Placed source offset t) : t.text = source.slice t.range := by
  cases t with
  | token => exact h.2.2
  | node => exact h.2.1

/-- An element in its place ends with its last token. -/
theorem Placed.stop_eq {token : Leaf} (h : Placed source offset t)
    (htoken : t.leaves.getLast? = some token) : t.range.stop = token.2.1.stop := by
  rw [(Placed.bounds t h).2, endOf, htoken]
  rfl

/-- Between the end of the last token before it and its own end there is nothing. -/
theorem Placed.range_eq_empty (h : Placed source offset t) (hleaves : t.leaves = []) :
    t.range = .empty offset := by
  obtain ⟨hstart, hstop⟩ := Placed.bounds t h
  rw [hleaves, endOf_nil] at hstop
  have := t.range.start_le_stop
  ext
  · show t.range.start = offset
    omega
  · exact hstop

/-- The children of an element in its place are laid out from the same place on. -/
theorem Placed.laid_children (h : Placed source offset t) : Laid source offset t.children := by
  cases t with
  | token => trivial
  | node => exact h.2.2.2

/-- An element in its place contains its children. -/
theorem Placed.inside (h : Placed source offset t) {child : SyntaxTree} (hchild : child ∈ t.children) :
    t.range.start ≤ child.range.start ∧ child.range.stop ≤ t.range.stop := by
  match t with
  | token _ _ _ => exact absurd hchild List.not_mem_nil
  | node _ _ _ [] => exact absurd hchild List.not_mem_nil
  | node _ _ _ (first :: later) =>
    obtain ⟨rfl, -, -, hlaid⟩ := h
    have hrow := Laid.row (first :: later) hlaid
    show (span offset (first :: later)).start ≤ _ ∧ _ ≤ (span offset (first :: later)).stop
    rw [hrow.start_span, hrow.stop_span]
    refine ⟨?_, (hrow.bounds_of_mem hchild).2⟩
    rcases List.mem_cons.mp hchild with rfl | hlater
    · exact Nat.le_refl _
    · have hle := List.rel_of_pairwise_cons hrow.pairwise hlater
      exact Nat.le_trans first.range.start_le_stop hle

/-- An element in its place has exactly the range that its tokens give it. -/
theorem Placed.exact (h : Placed source (endOf 0 before) t) (hbefore : endOf 0 before ≤ source.length) :
    Exact source before t where
  text := h.text_eq
  start _ := Placed.start_eq t h
  stop _ := h.stop_eq
  empty := h.range_eq_empty
  ordered := (Laid.row _ h.laid_children).pairwise
  inside _ := h.inside
  within := h.stop_le hbefore

/-- What occurs in a placed tree is placed behind the tokens in front of it. -/
theorem Occurs.placed (hroot : Placed source 0 root) (h : Occurs root before t) :
    Placed source (endOf 0 before) t ∧ endOf 0 before ≤ source.length := by
  induction h with
  | root => exact ⟨hroot, Nat.zero_le _⟩
  | child h hchildren ih =>
    obtain ⟨hparent, hbefore⟩ := ih
    have hlaid := hparent.laid_children
    rw [hchildren, laid_append] at hlaid
    rw [endOf_append]
    exact ⟨hlaid.2.1, Laid.endOf_le _ hlaid.1 hbefore⟩

end Exact

end WorldDoc.SyntaxTree
