import WorldDoc.Proofs.Syntax.Calls

/-!
# A tree builder as a machine for brackets

A tree can be written as a word of marks: a bracket that opens a node, the elements of the node, a
bracket that closes it, and tokens as they are. The calls on a builder write such a word as well,
with no regard to what the builder makes of them (`TreeBuilder.marksOf`): a call that opens or
closes a node adds a bracket unless no node is open, and asking for the whole tree puts all of the
word into the brackets of a root node, unless a node is open or the word is that of a root node
alone.

Whatever calls are made, the word of the calls is the word of what the builder holds. So it refuses
just those calls that are out of place, and holds the tokens it was given, each once and in order
(`TreeBuilder.calls_bracket`).

## Shape of the proof

One call adds to the word of what the builder holds what it adds to the word of the calls
(`TreeBuilder.marks_attempt`), and to the tokens held the one that it brings
(`TreeBuilder.leavesOf_held_attempt`). Both hold of any builder, also of one that no calls lead to.
As many brackets are open in the word as nodes are in the builder, so the word tells which calls are
out of place. It also tells whether a root node stands alone: then its bracket is not closed before
the end (`Mark.rootAlone_marksAll_iff`).
-/

namespace WorldDoc

/-- A mark in the word of a tree. -/
inductive Mark where
  | opening (kind : SyntaxKind)
  | token (kind : SyntaxKind) (range : TextRange)
  | closing
  deriving DecidableEq

namespace SyntaxTree

mutual

/-- The word of a tree. -/
def marks : SyntaxTree → List Mark
  | token kind range _ => [.token kind range]
  | node kind _ _ elements => .opening kind :: (marksAll elements ++ [.closing])

/-- The words of some trees, one behind the other. -/
def marksAll : List SyntaxTree → List Mark
  | [] => []
  | t :: later => t.marks ++ marksAll later

end

/-- The word of some trees and more is the word of the first and then that of the others. -/
theorem marksAll_append (ts us : List SyntaxTree) :
    marksAll (ts ++ us) = marksAll ts ++ marksAll us := by
  induction ts with
  | nil => rfl
  | cons t ts ih => rw [List.cons_append, marksAll, marksAll, ih, List.append_assoc]

/-- The word of a single tree is its own. -/
theorem marksAll_singleton (t : SyntaxTree) : marksAll [t] = t.marks := List.append_nil _

end SyntaxTree

/-! ## Open brackets -/

namespace Mark

open SyntaxTree

/-- What a mark adds to the number of open brackets. -/
def weight : Mark → Int
  | opening _ => 1
  | token _ _ => 0
  | closing => -1

/-- How many brackets are open behind a word. -/
def height : List Mark → Int
  | [] => 0
  | m :: later => m.weight + height later

@[simp] theorem height_nil : height [] = 0 := rfl

@[simp] theorem height_cons (m : Mark) (w : List Mark) : height (m :: w) = m.weight + height w := rfl

@[simp] theorem height_append (v w : List Mark) : height (v ++ w) = height v + height w := by
  induction v with
  | nil => exact (Int.zero_add _).symm
  | cons m v ih => rw [List.cons_append, height_cons, height_cons, ih, Int.add_assoc]

/-- A word that begins with the bracket of a root node and does not close it before the end. -/
def RootAlone (w : List Mark) : Prop :=
  w.head? = some (.opening (.node .root)) ∧ ∀ n < w.length, 0 < n → height (w.take n) ≠ 0

instance : DecidablePred RootAlone := fun w =>
  inferInstanceAs (Decidable (w.head? = some (.opening (.node .root)) ∧
    ∀ n < w.length, 0 < n → height (w.take n) ≠ 0))

mutual

/-- All brackets in the word of a tree are closed. -/
theorem height_marks : (t : SyntaxTree) → height t.marks = 0
  | .token _ _ _ => rfl
  | .node kind range text elements => by
      rw [marks, height_cons, height_append, height_marksAll elements]
      rfl

/-- Whole trees leave no bracket open. -/
theorem height_marksAll : (ts : List SyntaxTree) → height (marksAll ts) = 0
  | [] => rfl
  | t :: later => by
      rw [marksAll, height_append, height_marks t, height_marksAll later]
      rfl

end

mutual

/-- No bracket is closed in the word of a tree that was not opened there. -/
theorem height_take_marks : (t : SyntaxTree) → (n : Nat) → 0 ≤ height (t.marks.take n)
  | .token _ _ _, n => by cases n <;> simp [marks, weight]
  | .node kind range text elements, 0 => Int.le_refl 0
  | .node kind range text elements, n + 1 => by
      have hinner := height_take_marksAll elements n
      have hclosing : -1 ≤ height (List.take (n - (marksAll elements).length) [closing]) := by
        cases n - (marksAll elements).length <;> simp [weight]
      rw [marks, List.take_succ_cons, height_cons, List.take_append, height_append]
      simp only [weight]
      omega

/-- Within the word of whole trees no bracket is closed before it was opened. -/
theorem height_take_marksAll : (ts : List SyntaxTree) → (n : Nat) →
    0 ≤ height ((marksAll ts).take n)
  | [], n => by simp [marksAll]
  | t :: later, n => by
      have hfirst := height_take_marks t n
      have hlater := height_take_marksAll later (n - t.marks.length)
      rw [marksAll, List.take_append, height_append]
      omega

end

/-- Within the word of a node its own bracket stays open. -/
theorem height_take_node_pos (kind : SyntaxKind) (range : TextRange) (text : String)
    (elements : List SyntaxTree) {n : Nat} (hpos : 0 < n)
    (hlt : n < (SyntaxTree.node kind range text elements).marks.length) :
    0 < height ((SyntaxTree.node kind range text elements).marks.take n) := by
  obtain ⟨n, rfl⟩ := Nat.exists_eq_succ_of_ne_zero (Nat.ne_of_gt hpos)
  have hinner := height_take_marksAll elements n
  have hlength : n ≤ (marksAll elements).length := by
    rw [marks, List.length_cons, List.length_append, List.length_singleton] at hlt
    omega
  rw [marks, List.take_succ_cons, height_cons, List.take_append_of_le_length hlength]
  simp only [weight]
  omega

/-- The word of a root node alone is that of one root node. -/
theorem rootAlone_marksAll_iff (ts : List SyntaxTree) : RootAlone (marksAll ts) ↔
    ∃ range text elements, ts = [.node (.node .root) range text elements] := by
  constructor
  · rintro ⟨hhead, hopen⟩
    match ts with
    | [] => contradiction
    | .token _ _ _ :: later => exact absurd (Option.some.inj hhead) Mark.noConfusion
    | .node kind range text elements :: later =>
      obtain rfl : kind = .node .root := Mark.opening.inj (Option.some.inj hhead)
      cases later with
      | nil => exact ⟨range, text, elements, rfl⟩
      | cons u later =>
        -- the first node is closed before the next element
        refine absurd (height_marks (.node (.node .root) range text elements)) ?_
        have hnext : 0 < (marksAll (u :: later)).length := by
          cases u <;> simp [marksAll, marks]
        have hbetween := hopen (SyntaxTree.node (.node .root) range text elements).marks.length
          (by rw [marksAll, List.length_append]; omega) (by simp [marks])
        rwa [marksAll, List.take_left'] at hbetween
        rfl
  · rintro ⟨range, text, elements, rfl⟩
    rw [marksAll_singleton]
    exact ⟨rfl, fun n hlt hpos => Int.ne_of_gt (height_take_node_pos _ _ _ _ hpos hlt)⟩

end Mark

namespace TreeBuilder

open SyntaxTree Mark

/-! ## The word of the calls -/

/-- The word of some calls and one more. -/
def Call.mark (w : List Mark) : Call → List Mark
  | start kind => w ++ [.opening kind]
  | token kind range => w ++ [.token kind range]
  | finish => if height w = 0 then w else w ++ [.closing]
  | complete =>
    if height w = 0 ∧ ¬ RootAlone w then .opening (.node .root) :: (w ++ [.closing]) else w

/-- The word of some calls. -/
def marksOf (calls : List Call) : List Mark := calls.foldl Call.mark []

/-- The token that a call brings, if it brings one, with the part of the text at its range. -/
def Call.tokens (source : SourceText) : Call → List (SyntaxKind × TextRange × String)
  | token kind range => [(kind, range, source.slice range)]
  | _ => []

/-- The tokens that calls bring. -/
def tokensOf (source : SourceText) (calls : List Call) :
    List (SyntaxKind × TextRange × String) :=
  calls.flatMap (Call.tokens source)

/-- Why a call is out of place, if it is, where so many brackets are open. -/
def Call.refusal? (opened : Int) : Call → Option BuilderError
  | finish => if opened = 0 then some .nothingOpen else none
  | complete => if opened = 0 then none else some .stillOpen
  | _ => none

/-! ## What a builder holds -/

/-- Some roots and what the open nodes around each other hold behind them. -/
def heldIn (roots : List SyntaxTree) : List OpenNode → List SyntaxTree
  | [] => roots
  | inner :: outer => heldIn roots outer ++ inner.elements

/-- All that a builder holds, from left to right. -/
def held (b : TreeBuilder) : List SyntaxTree := heldIn b.roots b.openNodes

/-- The word of some roots and of the open nodes behind them. -/
def marksIn (roots : List SyntaxTree) : List OpenNode → List Mark
  | [] => marksAll roots
  | inner :: outer => marksIn roots outer ++ .opening inner.kind :: marksAll inner.elements

/-- The word of what a builder holds. -/
def marks (b : TreeBuilder) : List Mark := marksIn b.roots b.openNodes

section

variable (b : TreeBuilder)

/-- The open nodes are counted by the brackets that are not closed yet. -/
theorem height_marksIn (roots : List SyntaxTree) (openNodes : List OpenNode) :
    height (marksIn roots openNodes) = openNodes.length := by
  induction openNodes with
  | nil => exact height_marksAll roots
  | cons inner outer ih =>
    rw [marksIn, height_append, height_cons, height_marksAll, ih, List.length_cons]
    simp [weight]

/-- The open brackets are those of the open nodes. -/
theorem height_marks : height b.marks = b.openNodes.length := height_marksIn b.roots b.openNodes

/-- No bracket is open exactly if no node is. -/
theorem height_marks_eq_zero_iff : height b.marks = 0 ↔ b.openNodes = [] := by
  rw [height_marks, Int.natCast_eq_zero, List.length_eq_zero_iff]

/-- An element that is added is held behind all others. -/
theorem held_add (t : SyntaxTree) : (b.add t).held = b.held ++ [t] := by
  obtain ⟨source, openNodes, roots, offset⟩ := b
  cases openNodes with
  | nil => rfl
  | cons inner outer => exact (List.append_assoc _ _ _).symm

/-- An element that is added has its word behind all others. -/
theorem marks_add (t : SyntaxTree) : (b.add t).marks = b.marks ++ t.marks := by
  obtain ⟨source, openNodes, roots, offset⟩ := b
  cases openNodes with
  | nil => exact (marksAll_append roots [t]).trans (by rw [marksAll_singleton]; rfl)
  | cons inner outer =>
    show marksIn roots outer ++ .opening inner.kind :: marksAll (inner.elements ++ [t]) =
      marksIn roots outer ++ .opening inner.kind :: marksAll inner.elements ++ t.marks
    rw [marksAll_append, marksAll_singleton, List.append_assoc, List.cons_append]

/-- Without an open node the word is that of the roots. -/
theorem marks_of_closed (hopen : b.openNodes = []) : b.marks = marksAll b.roots := by
  rw [marks, hopen, marksIn]

/-- Without an open node the roots are all that is held. -/
theorem held_of_closed (hopen : b.openNodes = []) : b.held = b.roots := by rw [held, hopen, heldIn]

/-! ## The whole tree -/

/-- What comes of asking for the whole tree: the root node that stands alone, or one over all roots.
It is the only root then, and asking again yields it once more. -/
structure Completes (b : TreeBuilder) (tree : SyntaxTree) : Prop where
  answer : b.attempt .complete = (.ok (some tree), { b with roots := [tree] })
  again : { b with roots := [tree] }.attempt .complete =
    (.ok (some tree), { b with roots := [tree] })
  root : tree.isNode ∧ tree.kind = .node .root
  alone : RootAlone b.marks → b.roots = [tree]
  wrapped : ¬ RootAlone b.marks → tree.children = b.roots
  leaves : tree.leaves = leavesOf b.held
  marks : tree.marks =
    if RootAlone b.marks then b.marks else .opening (.node .root) :: (b.marks ++ [.closing])

/-- A root node that stands alone is the whole tree. -/
theorem completes_of_alone (hopen : b.openNodes = []) {range : TextRange} {text : String}
    {elements : List SyntaxTree} (hroots : b.roots = [.node (.node .root) range text elements]) :
    b.Completes (.node (.node .root) range text elements) := by
  have hkept : { b with roots := [.node (.node .root) range text elements] } = b := by
    rw [← hroots]
  have hanswer :
      b.attempt .complete = (.ok (some (.node (.node .root) range text elements)), b) := by
    rw [attempt_complete, complete_of_alone b hopen hroots]
    rfl
  have halone : RootAlone b.marks := by
    rw [b.marks_of_closed hopen]
    exact (rootAlone_marksAll_iff b.roots).mpr ⟨range, text, elements, hroots⟩
  refine ⟨by rw [hkept, hanswer], by rw [hkept, hanswer], ⟨rfl, rfl⟩, fun _ => hroots,
    fun h => absurd halone h, ?_, ?_⟩
  · rw [b.held_of_closed hopen, hroots, leavesOf, leavesOf, List.append_nil]
  · rw [if_pos halone, b.marks_of_closed hopen, hroots, marksAll_singleton]

/-- Roots that are no single root node come under one. -/
theorem completes_of_not_alone (hopen : b.openNodes = []) (halone : ¬ RootAlone b.marks) :
    b.Completes (.branch b.source (.node .root) b.offset b.roots) := by
  have hroots (range : TextRange) (text : String) (elements : List SyntaxTree) :
      b.roots ≠ [.node (.node .root) range text elements] := by
    rw [b.marks_of_closed hopen, rootAlone_marksAll_iff] at halone
    exact fun h => halone ⟨range, text, elements, h⟩
  let wrapped := SyntaxTree.branch b.source (.node .root) b.offset b.roots
  -- the root node stands alone from now on
  have hagain := complete_of_alone { b with roots := [wrapped] } hopen rfl
  refine ⟨?_, ?_, ⟨rfl, rfl⟩, fun h => absurd h halone, fun _ => rfl, ?_, ?_⟩
  · rw [attempt_complete, complete_of_not_alone b hopen hroots]
    rfl
  · rw [attempt_complete, hagain]
    rfl
  · rw [b.held_of_closed hopen, SyntaxTree.branch, SyntaxTree.leaves]
  · rw [if_neg halone, b.marks_of_closed hopen, SyntaxTree.branch, SyntaxTree.marks]

/-- The whole tree can be had whenever no node is open. -/
theorem exists_completes (hopen : b.openNodes = []) : ∃ tree, b.Completes tree := by
  by_cases halone : RootAlone b.marks
  · obtain ⟨range, text, elements, hroots⟩ :=
      (rootAlone_marksAll_iff b.roots).mp (b.marks_of_closed hopen ▸ halone)
    exact ⟨_, b.completes_of_alone hopen hroots⟩
  · exact ⟨_, b.completes_of_not_alone hopen halone⟩

/-! ## One call -/

/-- An open bracket belongs to an open node. -/
theorem exists_open (h : height b.marks ≠ 0) : ∃ inner outer, b.openNodes = inner :: outer :=
  List.exists_cons_of_ne_nil (mt b.height_marks_eq_zero_iff.mpr h)

/-- A call that is out of place breaks off and leaves the builder as it is. -/
theorem attempt_of_refusal (call : Call) {error : BuilderError}
    (h : call.refusal? (height b.marks) = some error) :
    b.attempt call = (.error (.builder error), b) := by
  cases call with
  | start kind => cases h
  | token kind range => cases h
  | finish =>
    rw [Call.refusal?] at h
    split at h
    · rename_i hheight
      cases h
      rw [attempt_finish, finish, b.height_marks_eq_zero_iff.mp hheight]
      rfl
    · cases h
  | complete =>
    rw [Call.refusal?] at h
    split at h
    · cases h
    · rename_i hheight
      cases h
      obtain ⟨inner, outer, hopen⟩ := b.exists_open hheight
      rw [attempt_complete, complete, hopen]
      rfl

/-- No other call breaks off. -/
theorem attempt_of_no_refusal (call : Call) (h : call.refusal? (height b.marks) = none) :
    ∃ answer, (b.attempt call).1 = .ok answer := by
  cases call with
  | start kind => exact ⟨none, rfl⟩
  | token kind range => exact ⟨none, by rw [attempt_token]⟩
  | finish =>
    rw [Call.refusal?] at h
    split at h
    · cases h
    · rename_i hheight
      obtain ⟨inner, outer, hopen⟩ := b.exists_open hheight
      rw [attempt_finish, finish, hopen]
      exact ⟨_, rfl⟩
  | complete =>
    rw [Call.refusal?] at h
    split at h
    · rename_i hheight
      obtain ⟨tree, htree⟩ := b.exists_completes (b.height_marks_eq_zero_iff.mp hheight)
      exact ⟨some tree, by rw [htree.answer]⟩
    · cases h

/-- A call adds to the word of what is held what it adds to the word of the calls. -/
theorem marks_attempt (call : Call) : (b.attempt call).2.marks = call.mark b.marks := by
  cases call with
  | start kind => rfl
  | token kind range =>
    rw [attempt_token]
    exact marks_add b (.leaf b.source kind range)
  | finish =>
    rw [Call.mark]
    by_cases hheight : height b.marks = 0
    · rw [if_pos hheight, b.attempt_of_refusal .finish (if_pos hheight)]
    · obtain ⟨inner, outer, hopen⟩ := b.exists_open hheight
      rw [if_neg hheight, attempt_finish, finish, hopen]
      simp only [settled]
      rw [marks_add, SyntaxTree.branch, SyntaxTree.marks, marks, marks, hopen, marksIn,
        List.append_assoc, List.cons_append]
  | complete =>
    rw [Call.mark]
    by_cases hheight : height b.marks = 0
    · have hopen := b.height_marks_eq_zero_iff.mp hheight
      obtain ⟨tree, htree⟩ := b.exists_completes hopen
      rw [htree.answer, marks_of_closed { b with roots := [tree] } hopen, marksAll_singleton,
        htree.marks]
      by_cases halone : RootAlone b.marks
      · rw [if_pos halone, if_neg fun h => h.2 halone]
      · rw [if_neg halone, if_pos ⟨hheight, halone⟩]
    · rw [if_neg fun h => hheight h.1, b.attempt_of_refusal .complete (if_neg hheight)]

/-- A call adds to the tokens that are held the one that it brings. -/
theorem leavesOf_held_attempt (call : Call) :
    leavesOf (b.attempt call).2.held = leavesOf b.held ++ call.tokens b.source := by
  cases call with
  | start kind =>
    show leavesOf (b.held ++ []) = leavesOf b.held ++ []
    rw [List.append_nil, List.append_nil]
  | token kind range =>
    rw [attempt_token]
    show leavesOf (b.add (.leaf b.source kind range)).held = _
    rw [held_add, leavesOf_append]
    rfl
  | finish =>
    show _ = leavesOf b.held ++ []
    rw [List.append_nil]
    by_cases hheight : height b.marks = 0
    · rw [b.attempt_of_refusal .finish (if_pos hheight)]
    · obtain ⟨inner, outer, hopen⟩ := b.exists_open hheight
      rw [attempt_finish, finish, hopen]
      simp only [settled]
      rw [held_add, leavesOf_append, leavesOf_branch, held, held, hopen, heldIn, leavesOf_append]
  | complete =>
    show _ = leavesOf b.held ++ []
    rw [List.append_nil]
    by_cases hheight : height b.marks = 0
    · have hopen := b.height_marks_eq_zero_iff.mp hheight
      obtain ⟨tree, htree⟩ := b.exists_completes hopen
      rw [htree.answer, held_of_closed { b with roots := [tree] } hopen, leavesOf, leavesOf,
        List.append_nil, htree.leaves]
    · rw [b.attempt_of_refusal .complete (if_neg hheight)]

/-- No call changes the text. -/
theorem source_attempt (call : Call) : (b.attempt call).2.source = b.source := by
  cases call with
  | start kind => rfl
  | token kind range =>
    rw [attempt_token]
    exact add_source b _
  | finish =>
    rw [attempt_finish, finish]
    cases b.openNodes with
    | nil => rfl
    | cons inner outer => exact add_source _ _
  | complete =>
    by_cases hheight : height b.marks = 0
    · obtain ⟨tree, htree⟩ := b.exists_completes (b.height_marks_eq_zero_iff.mp hheight)
      rw [htree.answer]
    · rw [b.attempt_of_refusal .complete (if_neg hheight)]

/-! ## Many calls -/

/-- The word of a builder goes on mark by mark with its calls. -/
theorem marks_run (calls : List Call) : (b.run calls).2.marks = calls.foldl Call.mark b.marks := by
  induction calls generalizing b with
  | nil => rfl
  | cons call calls ih => rw [run, ih, marks_attempt, List.foldl_cons]

/-- Calls add the tokens they bring and lose none that were held. -/
theorem leavesOf_held_run (calls : List Call) :
    leavesOf (b.run calls).2.held = leavesOf b.held ++ tokensOf b.source calls := by
  induction calls generalizing b with
  | nil => exact (List.append_nil _).symm
  | cons call calls ih =>
    rw [run, ih, leavesOf_held_attempt, source_attempt, List.append_assoc, tokensOf, tokensOf,
      List.flatMap_cons]

end

/-- Whatever calls were made on a new builder, it holds the tokens that they brought, each once and
in order, nested as the calls bracket them. A further call does what the operation of the builder
does; it breaks off just if it is out of place, and then it is as if it had not been made. While no
node is open the whole tree can be had: a root node over all that is held, which is not put under a
root node again. -/
theorem calls_bracket (source : SourceText) (calls : List Call) :
    let b := (run { source := source } calls).2
    let w := marksOf calls
    (leavesOf b.held = tokensOf source calls ∧ b.marks = w ∧ height w = b.openNodes.length) ∧
    (∀ (call : Call) (later : List Call), b.attempt call = b.outcome call ∧
      match call.refusal? (height w) with
      | some error => b.attempt call = (.error (.builder error), b) ∧
          b.run (call :: later) = (.error (.builder error) :: (b.run later).1, (b.run later).2)
      | none => ∃ answer, (b.attempt call).1 = .ok answer) ∧
    (height w = 0 → ∃ tree, b.Completes tree ∧ tree.leaves = tokensOf source calls) := by
  intro b w
  have hleaves : leavesOf b.held = tokensOf source calls := leavesOf_held_run _ calls
  have hmarks : b.marks = w := marks_run _ calls
  have hheight : height w = b.openNodes.length := hmarks ▸ b.height_marks
  refine ⟨⟨hleaves, hmarks, hheight⟩, fun call later => ⟨b.attempt_eq_outcome call, ?_⟩,
    fun hclosed => ?_⟩
  · rw [← hmarks]
    split
    · rename_i error hrefusal
      have hattempt := b.attempt_of_refusal call hrefusal
      exact ⟨hattempt, by rw [run, hattempt]⟩
    · rename_i hrefusal
      exact b.attempt_of_no_refusal call hrefusal
  · rw [← hmarks, height_marks_eq_zero_iff] at hclosed
    obtain ⟨tree, htree⟩ := b.exists_completes hclosed
    exact ⟨tree, htree, htree.leaves.trans hleaves⟩

/-- Of six calls two are refused, and the tokens come against the order of the text. -/
theorem calls_bracket_with_refusals :
    let calls : List Call := [.finish, .token (.token .comma) ⟨2, 3, by decide⟩,
      .start (.node .field), .complete, .token (.token .identifier) ⟨0, 2, by decide⟩, .finish]
    let b := (run { source := .ofString "ab,c" } calls).2
    ∃ tree, b.attempt .complete = (.ok (some tree), { b with roots := [tree] }) ∧
      tree.leaves = [(.token .comma, ⟨2, 3, by decide⟩, ","),
        (.token .identifier, ⟨0, 2, by decide⟩, "ab")] ∧
      tree.marks = [.opening (.node .root), .token (.token .comma) ⟨2, 3, by decide⟩,
        .opening (.node .field), .token (.token .identifier) ⟨0, 2, by decide⟩, .closing,
        .closing] := by
  intro calls b
  obtain ⟨⟨-, hmarks, -⟩, -, hwhole⟩ := calls_bracket (.ofString "ab,c") calls
  obtain ⟨tree, htree, hleaves⟩ := hwhole (by decide)
  refine ⟨tree, htree.answer, hleaves.trans (by decide), htree.marks.trans ?_⟩
  rw [hmarks]
  decide

end TreeBuilder

end WorldDoc
