import Mathlib.Data.List.Basic
import WorldDoc.Proofs.Text.Quoted
import WorldDoc.Syntax.Outline

/-!
# The listing of a tree

The dump of a tree is its listing in preorder: one line for each node, the node before its children,
and the children in order (`Outline.entries`). Nothing of the tree is lost in it but the ranges and
the texts of nodes with children: trees have one dump exactly if they are alike (`Outline.Alike`) in
all the rest (`Outline.dump_lists_and_determines`).

## Shape of the proof

A line is a run of blanks, the name of a kind, which holds no blank, and the quoted text behind one
more blank or nothing. So each part stops where the next one begins, and a line says of which entry
it is (`Entry.line_injective`). As no line holds a line break, the dump can be cut into its lines
again. That the depths of the entries tell where the children of a node end is an induction on the
tree, with whatever entries may stand behind (`Outline.alike_of_entries`).
-/

namespace WorldDoc

/-! ## Lines -/

/-- What a line of a listing says: how deep its node lies, of which kind it is, and its text if it
has no children. -/
structure Entry where
  depth : Nat
  kind : SyntaxKind
  text : Option String

namespace SyntaxKind

/-- The list of all kinds leaves none out. -/
theorem mem_all (k : SyntaxKind) : k ∈ all := by
  rcases k with k | k
  · cases k <;> decide
  · rcases k with _ | _ | _ | (_ | k) | _ | _ | _ | k <;> try decide
    all_goals cases k <;> decide

/-- The kind of a name is found again. -/
theorem ofLabel?_label (k : SyntaxKind) : ofLabel? k.label = some k :=
  (by decide +kernel : ∀ k ∈ all, ofLabel? k.label = some k) k k.mem_all

/-- No two kinds have one name. -/
theorem label_injective : Function.Injective label := fun k l h => by
  have hfound := ofLabel?_label k
  rw [h, ofLabel?_label l] at hfound
  exact (Option.some.inj hfound).symm

/-- The names of kinds are words. -/
theorem label_word (k : SyntaxKind) :
    k.label.toList ≠ [] ∧ ' ' ∉ k.label.toList ∧ '\n' ∉ k.label.toList :=
  (by decide +kernel : ∀ k ∈ all, k.label.toList ≠ [] ∧ ' ' ∉ k.label.toList ∧
    '\n' ∉ k.label.toList) k k.mem_all

end SyntaxKind

namespace Entry

/-- The quoted text behind a blank, if there is a text. -/
def shownText : Option String → List Char
  | none => []
  | some text => ' ' :: Quoted.encodeChars text.toList

/-- Two blanks for each level, the name of the kind, and the text. -/
def line (e : Entry) : String :=
  String.ofList (List.replicate (2 * e.depth) ' ' ++ (e.kind.label.toList ++ shownText e.text))

/-- Where all of two beginnings have a property and what follows them begins without it, the
beginnings can be told from what follows. -/
theorem append_inj_of_all {α : Type} {p : α → Prop} {xs ys later later' : List α}
    (hxs : ∀ a ∈ xs, p a) (hys : ∀ a ∈ ys, p a) (hlater : ∀ a ∈ later.head?, ¬ p a)
    (hlater' : ∀ a ∈ later'.head?, ¬ p a) (h : xs ++ later = ys ++ later') :
    xs = ys ∧ later = later' := by
  induction xs generalizing ys with
  | nil =>
    cases ys with
    | nil => exact ⟨rfl, h⟩
    | cons y ys =>
      rw [List.nil_append] at h
      exact absurd (hys y List.mem_cons_self) (hlater y (by rw [h]; rfl))
  | cons x xs ih =>
    cases ys with
    | nil =>
      rw [List.nil_append] at h
      exact absurd (hxs x List.mem_cons_self) (hlater' x (by rw [← h]; rfl))
    | cons y ys =>
      obtain ⟨rfl, hothers⟩ := List.cons.inj (show _ :: _ = _ :: _ from h)
      obtain ⟨rfl, hsame⟩ := ih (fun a ha => hxs a (List.mem_cons_of_mem _ ha))
        (fun a ha => hys a (List.mem_cons_of_mem _ ha)) hothers
      exact ⟨rfl, hsame⟩

/-- What is shown of a text tells the text, and whether there is one at all. -/
theorem shownText_injective : Function.Injective shownText := by
  intro text text' h
  cases text with
  | none =>
    cases text' with
    | none => rfl
    | some t' => contradiction
  | some t =>
    cases text' with
    | none => contradiction
    | some t' =>
      rw [String.toList_injective (Quoted.encodeChars_injective (List.cons.inj h).2)]

/-- A line is that of one entry only. -/
theorem line_injective : Function.Injective line := by
  rintro ⟨depth, kind, text⟩ ⟨depth', kind', text'⟩ h
  have hblank (k : SyntaxKind) (t : Option String) :
      ∀ c ∈ (k.label.toList ++ shownText t).head?, ¬ c = ' ' := by
    obtain ⟨hne, hword, -⟩ := k.label_word
    rw [List.head?_append_of_ne_nil _ hne]
    rintro c hc rfl
    exact hword (List.mem_of_mem_head? hc)
  have hstop (t : Option String) : ∀ c ∈ (shownText t).head?, ¬ c ≠ ' ' := by
    cases t <;> simp [shownText]
  have hword (k : SyntaxKind) : ∀ c ∈ k.label.toList, c ≠ ' ' := by
    rintro c hc rfl
    exact k.label_word.2.1 hc
  obtain ⟨hindent, hrest⟩ := append_inj_of_all (fun c hc => List.eq_of_mem_replicate hc)
    (fun c hc => List.eq_of_mem_replicate hc) (hblank kind text) (hblank kind' text')
    (String.ofList_injective h)
  obtain ⟨hlabel, htext⟩ := append_inj_of_all (hword kind) (hword kind') (hstop text) (hstop text')
    hrest
  have hdepth : 2 * depth = 2 * depth' := by
    have hlength := congrArg List.length hindent
    rwa [List.length_replicate, List.length_replicate] at hlength
  obtain rfl : depth = depth' := by omega
  obtain rfl := SyntaxKind.label_injective (String.toList_injective hlabel)
  obtain rfl := shownText_injective htext
  rfl

/-- A line has no line break within it: quoting writes a break out as an escape. -/
theorem break_not_mem_line (e : Entry) : '\n' ∉ e.line.toList := by
  have htext : '\n' ∉ shownText e.text := by
    cases e.text with
    | none => exact List.not_mem_nil
    | some t => simpa [shownText] using Quoted.break_not_mem_encodeChars t.toList
  have hindent : '\n' ∉ List.replicate (2 * e.depth) ' ' := by
    intro h
    exact absurd (List.eq_of_mem_replicate h) (by decide)
  rw [line, String.toList_ofList, List.mem_append, List.mem_append]
  rintro (h | h | h)
  · exact hindent h
  · exact e.kind.label_word.2.2 h
  · exact htext h

end Entry

namespace Outline

/-! ## The listing in preorder -/

mutual

/-- The entries of a tree whose root lies at a depth: that of the root, then those of its
children. -/
def entries (depth : Nat) : Outline → List Entry
  | node kind text _ children =>
    ⟨depth, kind, if children.isEmpty then some text else none⟩ :: entriesOf (depth + 1) children

/-- The entries of some trees at one depth, tree by tree. -/
def entriesOf (depth : Nat) : List Outline → List Entry
  | [] => []
  | o :: later => o.entries depth ++ entriesOf depth later

end

/-- The entries of some trees are listed tree by tree. -/
theorem entriesOf_eq_flatMap (depth : Nat) (os : List Outline) :
    entriesOf depth os = os.flatMap (entries depth) := by
  induction os with
  | nil => rfl
  | cons o os ih => rw [entriesOf, ih, List.flatMap_cons]

mutual

/-- There is one entry for each node. -/
theorem length_entries (depth : Nat) : (o : Outline) → (o.entries depth).length = o.size
  | node _ _ _ children => congrArg (· + 1) (length_entriesOf (depth + 1) children)

/-- There is one entry for each node. -/
theorem length_entriesOf (depth : Nat) : (os : List Outline) →
    (entriesOf depth os).length = sizeAll os
  | [] => rfl
  | o :: later => by
      rw [entriesOf, List.length_append, length_entries depth o, length_entriesOf depth later,
        sizeAll_cons]

end

/-! ## The loop over the nodes that wait -/

/-- The lines for the nodes that are kept on a stack, each with its depth. The children of the node
on top are put on the stack one by one, the last one first. Nothing says beforehand that this comes
to an end. -/
def listLoop (written : List String) : List (Nat × Outline) → Option (List String)
  | [] => some written
  | (depth, o) :: pending => by
    -- called with `apply`, so that the term does not remember at which line of this file it stands
    apply listLoop
    · exact written ++ [dumpLine depth o]
    · exact (o.children.reverse.map (depth + 1, ·)).foldl (fun stack next => next :: stack) pending
partial_fixpoint

/-- The dump, made by the loop. -/
def dumpByLoop (o : Outline) : Option String := do
  let lines ← listLoop [] [(0, o)]
  return "\n".intercalate lines

/-- The loop comes to an end with the lines that the dump consists of. -/
theorem listLoop_eq (written : List String) (waiting : List (Nat × Outline)) :
    listLoop written.reverse waiting = some (dumpFrom written waiting) := by
  fun_induction dumpFrom written waiting with
  | case1 written => rw [listLoop]
  | case2 written depth o waiting ih =>
    have hpushed : (o.children.reverse.map (depth + 1, ·)).foldl
        (fun stack next => next :: stack) waiting =
          o.children.map (depth + 1, ·) ++ waiting := by
      rw [List.foldl_flip_cons_eq_append', List.map_reverse, List.reverse_reverse]
    rw [listLoop, hpushed, ← List.reverse_cons]
    exact ih

/-- The loop ends with the dump. -/
theorem dumpByLoop_eq (o : Outline) : dumpByLoop o = some o.dump := by
  rw [dumpByLoop, ← List.reverse_nil, listLoop_eq]
  rfl

/-- A line of the dump is that of its node's entry. -/
theorem dumpLine_eq (depth : Nat) (o : Outline) :
    dumpLine depth o =
      Entry.line ⟨depth, o.kind, if o.children.isEmpty then some o.text else none⟩ := by
  refine String.toList_injective ?_
  unfold dumpLine Entry.line
  split <;> simp [Entry.shownText, Quoted.encode]

/-- What waits is listed tree by tree. -/
theorem dumpFrom_eq (written : List String) (waiting : List (Nat × Outline)) :
    dumpFrom written waiting =
      written.reverse ++ waiting.flatMap fun w => (w.2.entries w.1).map Entry.line := by
  fun_induction dumpFrom written waiting with
  | case1 written => rw [List.flatMap_nil, List.append_nil]
  | case2 written depth o waiting ih =>
    obtain ⟨kind, text, range, children⟩ := o
    rw [ih, List.reverse_cons, List.flatMap_append, List.flatMap_map, List.flatMap_cons, entries,
      entriesOf_eq_flatMap, List.map_cons, List.map_flatMap, dumpLine_eq, List.append_assoc]
    rfl

/-- The dump consists of the lines of the entries. -/
theorem dump_eq (o : Outline) : o.dump = "\n".intercalate ((o.entries 0).map Entry.line) := by
  rw [dump, dumpFrom_eq, List.flatMap_singleton]
  rfl

/-- A tree has the entry of its root at least. -/
theorem entries_ne_nil (depth : Nat) (o : Outline) : o.entries depth ≠ [] := by
  cases o
  exact List.cons_ne_nil _ _

/-- The dump cut at its line breaks gives the lines again. -/
theorem splitOn_dump (o : Outline) :
    o.dump.toList.splitOn '\n' = (o.entries 0).map fun e => e.line.toList := by
  rw [dump_eq, String.toList_intercalate, List.map_map]
  refine List.splitOn_intercalate '\n' ?_ (by simp [entries_ne_nil])
  simp only [List.mem_map, forall_exists_index, and_imp, forall_apply_eq_imp_iff₂]
  exact fun e _ => e.break_not_mem_line

/-- A dump is that of one list of entries only. -/
theorem entries_eq_of_dump_eq {o p : Outline} (h : o.dump = p.dump) :
    o.entries 0 = p.entries 0 := by
  have hlines := splitOn_dump o
  rw [h, splitOn_dump p] at hlines
  have hinjective : Function.Injective fun e : Entry => e.line.toList :=
    fun e f he => Entry.line_injective (String.toList_injective he)
  exact (List.map_injective_iff.mpr hinjective hlines).symm

/-! ## What a listing tells of its tree -/

/-- Trees of one shape and with the same kinds, whose nodes without children have the same texts. -/
inductive Alike : Outline → Outline → Prop where
  | node (kind : SyntaxKind) {text text' : String} (range range' : Option TextRange)
    {children children' : List Outline} (htext : children = [] → text = text')
    (hchildren : List.Forall₂ Alike children children') :
    Alike (node kind text range children) (node kind text' range' children')

mutual

/-- Trees that are alike have the same entries. -/
theorem entries_eq_of_alike (depth : Nat) : (o : Outline) → {p : Outline} → o.Alike p →
    o.entries depth = p.entries depth
  | node kind text range children, _, .node _ _ _ htext hchildren => by
      rw [entries, entries, entriesOf_eq_of_alike (depth + 1) children hchildren]
      cases hchildren with
      | nil => rw [htext rfl]
      | cons => rfl

/-- Trees that are alike one by one have the same entries. -/
theorem entriesOf_eq_of_alike (depth : Nat) : (os : List Outline) → {ps : List Outline} →
    List.Forall₂ Alike os ps → entriesOf depth os = entriesOf depth ps
  | [], _, .nil => rfl
  | o :: os, _, .cons ho hos => by
      rw [entriesOf, entriesOf, entries_eq_of_alike depth o ho, entriesOf_eq_of_alike depth os hos]

end

/-- Entries behind those of nodes at a depth: the first of them lies less deep. -/
def Behind (depth : Nat) (later : List Entry) : Prop := ∀ e ∈ later.head?, e.depth < depth

/-- What comes behind the children of a node, its later siblings among it, lies less deep than they
do. -/
theorem behind_entriesOf {depth : Nat} {later : List Entry} (h : Behind depth later)
    (os : List Outline) : Behind (depth + 1) (entriesOf depth os ++ later) := by
  intro e he
  cases os with
  | nil => exact Nat.lt_succ_of_lt (h e he)
  | cons o os =>
    obtain ⟨kind, text, range, children⟩ := o
    obtain rfl := Option.some.inj he
    exact Nat.lt_succ_self _

/-- The entries of trees at a depth do not come behind those of trees at this depth. -/
theorem not_behind_entriesOf (depth : Nat) (o : Outline) (os : List Outline) (later : List Entry) :
    ¬ Behind depth (entriesOf depth (o :: os) ++ later) := by
  obtain ⟨kind, text, range, children⟩ := o
  exact fun h => absurd (h _ rfl) (Nat.lt_irrefl _)

mutual

/-- Trees that have one list of entries, with whatever stands behind, are alike. -/
theorem alike_of_entries : (o : Outline) → {p : Outline} → {depth : Nat} →
    {later later' : List Entry} → Behind (depth + 1) later → Behind (depth + 1) later' →
    o.entries depth ++ later = p.entries depth ++ later' → o.Alike p ∧ later = later'
  | node kind text range children, node kind' text' range' children', depth, later, later',
      hlater, hlater', h => by
      obtain ⟨hentry, hrest⟩ := List.cons.inj (show _ :: _ = _ :: _ from h)
      obtain ⟨hchildren, hsame⟩ := forall₂_alike_of_entriesOf children hlater hlater' hrest
      obtain ⟨-, rfl, htexts⟩ := Entry.mk.inj hentry
      refine ⟨.node kind range range' ?_ hchildren, hsame⟩
      rintro rfl
      cases hchildren
      exact Option.some.inj htexts

/-- Trees that have one list of entries, with less deep ones behind, are alike one by one, and the
same is behind. -/
theorem forall₂_alike_of_entriesOf : (os : List Outline) → {ps : List Outline} → {depth : Nat} →
    {later later' : List Entry} → Behind depth later → Behind depth later' →
    entriesOf depth os ++ later = entriesOf depth ps ++ later' →
    List.Forall₂ Alike os ps ∧ later = later'
  | [], [], _, _, _, _, _, h => ⟨.nil, h⟩
  | [], p :: ps, depth, later, later', hlater, _, h => by
      rw [show later = _ from h] at hlater
      exact absurd hlater (not_behind_entriesOf depth p ps later')
  | o :: os, [], depth, later, later', _, hlater', h => by
      rw [show later' = _ from h.symm] at hlater'
      exact absurd hlater' (not_behind_entriesOf depth o os later)
  | o :: os, p :: ps, depth, later, later', hlater, hlater', h => by
      rw [entriesOf, entriesOf, List.append_assoc, List.append_assoc] at h
      obtain ⟨hfirst, hrest⟩ := alike_of_entries o (behind_entriesOf hlater os)
        (behind_entriesOf hlater' ps) h
      obtain ⟨hothers, hsame⟩ := forall₂_alike_of_entriesOf os hlater hlater' hrest
      exact ⟨.cons hfirst hothers, hsame⟩

end

/-- Trees have one dump exactly if they are alike. -/
theorem dump_eq_iff (o p : Outline) : o.dump = p.dump ↔ o.Alike p := by
  constructor
  · intro h
    have hentries := congrArg (· ++ []) (entries_eq_of_dump_eq h)
    exact (alike_of_entries o (by simp [Behind]) (by simp [Behind]) hentries).1
  · intro h
    rw [dump_eq, dump_eq, entries_eq_of_alike 0 o h]

end Outline

/-! ## Trees with tokens -/

namespace SyntaxTree

mutual

/-- The entries of a syntax tree. Tokens are not listed. -/
def entries (depth : Nat) : SyntaxTree → List Entry
  | token _ _ _ => []
  | node kind _ text elements =>
    ⟨depth, kind, if elements.any isNode then none else some text⟩ ::
      entriesOf (depth + 1) elements

/-- The entries of some elements at one depth. -/
def entriesOf (depth : Nat) : List SyntaxTree → List Entry
  | [] => []
  | t :: later => t.entries depth ++ entriesOf depth later

end

/-- The outline of elements is empty exactly if all are tokens. -/
theorem isEmpty_outlineNodes (ts : List SyntaxTree) :
    (outlineNodes ts).isEmpty = !ts.any isNode := by
  induction ts with
  | nil => rfl
  | cons t ts ih => cases t <;> simp [outlineNodes, isNode, ih]

mutual

/-- A node of a syntax tree is listed as its outline is. -/
theorem entries_outline (depth : Nat) : (t : SyntaxTree) → t.isNode →
    t.outline.entries depth = t.entries depth
  | node kind range text elements, _ => by
      rw [outline, Outline.entries, entries, entriesOf_outlineNodes (depth + 1) elements,
        isEmpty_outlineNodes]
      cases elements.any isNode <;> rfl

/-- The entries of elements are those of their outlines. -/
theorem entriesOf_outlineNodes (depth : Nat) : (ts : List SyntaxTree) →
    Outline.entriesOf depth (outlineNodes ts) = entriesOf depth ts
  | [] => rfl
  | token _ _ _ :: later => entriesOf_outlineNodes depth later
  | node kind range text elements :: later => by
      have hnode : (node kind range text elements).isNode = true := rfl
      rw [outlineNodes, if_pos hnode, Outline.entriesOf, entriesOf, entries_outline depth _ hnode,
        entriesOf_outlineNodes depth later]

end

end SyntaxTree

/-- The loop that dumps a tree comes to an end whatever the tree is. The dump consists of the lines
of the entries in preorder, one for each node, and it can be cut into these lines again. Of a syntax
tree the nodes are listed, with the text of those that have no nodes under them. Two dumps are the
same exactly if the trees have one shape, the same kinds, and the same texts on nodes without
children. -/
theorem Outline.dump_lists_and_determines :
    (∀ o : Outline, dumpByLoop o = some o.dump ∧
      o.dump = "\n".intercalate ((o.entries 0).map Entry.line) ∧
      o.dump.toList.splitOn '\n' = ((o.entries 0).map fun e => e.line.toList) ∧
      (o.entries 0).length = o.size) ∧
    (∀ kind range text elements, (SyntaxTree.node kind range text elements).outline.entries 0 =
      (SyntaxTree.node kind range text elements).entries 0) ∧
    ∀ o p : Outline, o.dump = p.dump ↔ o.Alike p :=
  ⟨fun o => ⟨dumpByLoop_eq o, dump_eq o, splitOn_dump o, length_entries 0 o⟩,
    fun kind range text elements =>
      SyntaxTree.entries_outline 0 (.node kind range text elements) rfl,
    dump_eq_iff⟩

/-- Two levels, and a text with a line break in it that looks like a line of its own. -/
example : (Outline.node (.node .field) "x: 1" none
    [.node (.node .fieldKey) "x\n  NAME" none [],
      .node (.node (.value .number)) "1" none []]).dump =
        "FIELD\n  FIELD_KEY 'x\\n  NAME'\n  NUMBER_VALUE '1'" := by
  decide +kernel

end WorldDoc
