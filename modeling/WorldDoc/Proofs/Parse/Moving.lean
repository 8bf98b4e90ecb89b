import WorldDoc.Proofs.Lexical.Joining
import WorldDoc.Proofs.Parse.Reconstruction

/-!
# Parsing further on in a text

If the same tokens are ahead further on, behind other text, they are parsed alike: every routine
reads the same elements and reports the same, only further on (`declarations_moved`). This holds at
every state and whatever the tokens are.

## Shape of the proof

A text is put behind some characters (`behind`), and tokens, states and trees are moved on by their
number (`moved`). The actions commute with that, since slices do (`slice_behind`), and so each
routine does, with the equations for its branches on either side.
-/

namespace WorldDoc

/-! ## Texts and trees -/

namespace SourceText

/-- The text with some characters in front of it. -/
def behind (front : Array Char) (t : SourceText) : SourceText := ⟨front ++ t.chars⟩

variable (front : Array Char) (t : SourceText)

/-- Characters in front make a text as much longer. -/
@[simp] theorem length_behind : (t.behind front).length = t.length + front.size := by
  rw [length, behind, Array.size_append, Nat.add_comm]
  rfl

/-- A range further on cuts out what the range cut out before. -/
@[simp] theorem slice_behind (r : TextRange) :
    (t.behind front).slice (r.moved front.size) = t.slice r := by
  have hlist : (t.behind front).toList = front.toList ++ t.toList := Array.toList_append
  have hdrop : (front.toList ++ t.toList).drop (r.start + front.size) = t.toList.drop r.start := by
    rw [Nat.add_comm, ← Array.length_toList, ← List.drop_drop, List.drop_left]
  rw [slice_eq, slice_eq, hlist, TextRange.moved, hdrop, Nat.add_sub_add_right]

end SourceText

namespace SyntaxTree

mutual

/-- The tree as many characters further on. -/
def moved (n : Nat) : SyntaxTree → SyntaxTree
  | token k r t => token k (r.moved n) t
  | node k r t cs => node k (r.moved n) t (movedAll n cs)

/-- Some trees as many characters further on. -/
def movedAll (n : Nat) : List SyntaxTree → List SyntaxTree
  | [] => []
  | t :: ts => t.moved n :: movedAll n ts

end

/-- To move some trees is to move each of them. -/
theorem movedAll_eq_map (n : Nat) (ts : List SyntaxTree) : movedAll n ts = ts.map (moved n) := by
  induction ts with
  | nil => rfl
  | cons t ts ih => rw [movedAll, ih, List.map_cons]

/-- A tree that is moved has its range moved. -/
theorem range_moved (n : Nat) (t : SyntaxTree) : (t.moved n).range = t.range.moved n := by
  cases t <;> rfl

/-- Ranges that are moved cover what they did, moved. -/
theorem cover_moved (n : Nat) (r s : TextRange) :
    (r.moved n).cover (s.moved n) = (r.cover s).moved n :=
  TextRange.ext (Nat.add_min_add_right _ _ _) (Nat.add_max_add_right _ _ _)

/-- The range over changed elements is the range over the elements, changed alike. -/
theorem span_map {f : SyntaxTree → SyntaxTree} {g : TextRange → TextRange} {offset offset' : Nat}
    (hrange : ∀ t, (f t).range = g t.range) (hcover : ∀ r s, (g r).cover (g s) = g (r.cover s))
    (hempty : .empty offset' = g (.empty offset)) (ts : List SyntaxTree) :
    span offset' (ts.map f) = g (span offset ts) := by
  rw [span, span, List.head?_map, List.getLast?_map]
  cases ts.head? with
  | none => exact hempty
  | some first =>
    cases ts.getLast? with
    | none => exact hempty
    | some last =>
      show (f first).range.cover (f last).range = _
      rw [hrange, hrange, hcover]

/-- Elements that are moved span what they did, moved. -/
theorem span_moved (n offset : Nat) (ts : List SyntaxTree) :
    span (offset + n) (ts.map (moved n)) = (span offset ts).moved n :=
  span_map (range_moved n) (cover_moved n) rfl ts

variable {source : SourceText} {front : Array Char}

/-- A branch over moved elements, behind other text, is the branch moved. -/
@[simp] theorem branch_moved (kind : SyntaxKind) (offset : Nat) (ts : List SyntaxTree) :
    branch (source.behind front) kind (offset + front.size) (ts.map (moved front.size)) =
      (branch source kind offset ts).moved front.size := by
  rw [branch, branch, moved, span_moved, SourceText.slice_behind, movedAll_eq_map]

end SyntaxTree

/-! ## States -/

namespace Parse

/-- The context of a text with some characters in front of it. -/
def Context.behind (front : Array Char) (c : Context) : Context := ⟨c.source.behind front, c.limit⟩

/-- The source of a context behind other text is behind that text. -/
@[simp] theorem Context.source_behind (front : Array Char) (c : Context) :
    (c.behind front).source = c.source.behind front := rfl

/-- Other text in front does not change the limit. -/
@[simp] theorem Context.limit_behind (front : Array Char) (c : Context) :
    (c.behind front).limit = c.limit := rfl

namespace State

/-- The state as many characters further on. -/
def moved (n : Nat) (s : State) : State where
  ahead := s.ahead.map (Token.moved n)
  offset := s.offset + n
  reports := s.reports.map (Diagnostic.moved n)

section Moved

variable (n : Nat) (front : Array Char) (c : Context) (s : State)

/-- The last token taken ends as much further on. -/
@[simp] theorem offset_moved : (s.moved n).offset = s.offset + n := rfl

/-- The current token has the same kind. -/
@[simp] theorem kind_moved : (s.moved n).kind = s.kind := by
  obtain ⟨ahead, offset, reports⟩ := s
  cases ahead <;> rfl

/-- The current token has the same text. -/
@[simp] theorem text_moved : (s.moved n).text = s.text := by
  obtain ⟨ahead, offset, reports⟩ := s
  cases ahead <;> rfl

/-- The current token has its range moved. -/
theorem range_moved : (s.moved front.size).range (c.behind front) = (s.range c).moved front.size := by
  obtain ⟨ahead, offset, reports⟩ := s
  cases ahead with
  | nil =>
    show TextRange.empty (c.source.behind front).length = _
    rw [SourceText.length_behind]
    rfl
  | cons t later => exact Token.range_moved _ t

/-- The leaf of a token is moved with the token. -/
theorem leafOf_moved (t : Token) :
    leafOf (c.behind front) (t.moved front.size) = (leafOf c t).moved front.size := by
  show SyntaxTree.leaf (c.source.behind front) _ (t.moved front.size).range = _
  rw [Token.range_moved, SyntaxTree.leaf, SourceText.slice_behind]
  rfl

/-- A report is recorded further on as it is where it was. -/
theorem record_moved (d : Diagnostic) :
    (s.moved n).record (d.moved n) = (s.record d).moved n := by
  obtain ⟨ahead, offset, reports⟩ := s
  cases reports with
  | nil => rfl
  | cons latest earlier =>
    simp only [record, moved, List.map_cons, Diagnostic.moved, TextRange.moved,
      Nat.add_right_cancel_iff]
    split <;> rfl

/-- A finding is reported as much further on. -/
@[simp] theorem report_moved (finding : Finding) (message : Option String) :
    (s.moved front.size).report (c.behind front) finding message =
      (s.report c finding message).moved front.size := by
  rw [report, report, range_moved, ← record_moved]
  rfl

/-- The same tokens are skipped. -/
@[simp] theorem skip_moved (k : Nat) : (s.moved n).skip k = (s.skip k).moved n := by
  simp only [skip, moved, ← List.map_take, ← List.map_drop, List.getLast?_map]
  cases (s.ahead.take k).getLast? with
  | none => rfl
  | some t => simp [Token.stop_moved]

/-- The same leaves are taken. -/
@[simp] theorem leaves_moved (k : Nat) :
    (s.moved front.size).leaves (c.behind front) k =
      (s.leaves c k).map (SyntaxTree.moved front.size) := by
  simp only [leaves, moved, ← List.map_take, List.map_map]
  exact List.map_congr_left fun t _ => leafOf_moved front c t

/-- The same node is put around leaves. -/
@[simp] theorem wrap_moved (kind : NodeKind) (k : Nat) :
    (s.moved front.size).wrap (c.behind front) kind k =
      Prod.map (SyntaxTree.moved front.size) (moved front.size) (s.wrap c kind k) := by
  rw [wrap, leaves_moved, skip_moved]
  exact congrArg (·, _) (SyntaxTree.branch_moved _ _ _)

/-- A token is taken if it is there, here and there. -/
@[simp] theorem accept_moved (kind : TokenKind) :
    (s.moved front.size).accept (c.behind front) kind =
      Prod.map (Option.map (SyntaxTree.moved front.size)) (moved front.size) (s.accept c kind) := by
  by_cases hkind : s.kind = kind
  · obtain ⟨ahead, offset, reports⟩ := s
    cases ahead with
    | nil => rfl
    | cons t later =>
      have hmoved : (moved front.size ⟨t :: later, offset, reports⟩).ahead =
          t.moved front.size :: later.map (Token.moved front.size) := rfl
      rw [accept_of_ahead hmoved hkind, accept_of_ahead rfl hkind, leafOf_moved, skip_moved]
      rfl
  · rw [accept_of_kind_ne hkind, accept_of_kind_ne (by rwa [kind_moved])]
    rfl

/-- A token that is expected is found, or reported missing, in both places. -/
@[simp] theorem expect_moved (kind : TokenKind) :
    (s.moved front.size).expect (c.behind front) kind =
      Prod.map (Option.map (SyntaxTree.moved front.size)) (moved front.size) (s.expect c kind) := by
  rw [expect, expect, accept_moved]
  cases s.accept c kind with
  | mk leaf next =>
    cases leaf with
    | some leaf => rfl
    | none =>
      simp only [Prod.map, Option.map_none, kind_moved, report_moved]

end Moved

end State

/-! ## The routines -/

open State
open SyntaxTree (branch_moved)

variable {front : Array Char} {c : Context}

section Ahead

variable (n : Nat) (ahead : List Token)

/-- As many tokens stand before the next directive. -/
@[simp] theorem beforeDirective_moved :
    beforeDirective (ahead.map (Token.moved n)) = beforeDirective ahead := by
  rw [beforeDirective, List.takeWhile_map, List.length_map]
  rfl

/-- Brackets are balanced after as many tokens. -/
@[simp] theorem bracketedLength_moved (opened : Int) :
    bracketedLength opened (ahead.map (Token.moved n)) = bracketedLength opened ahead := by
  induction ahead generalizing opened with
  | nil => rfl
  | cons t later ih =>
    simp only [List.map_cons, bracketedLength, ih]
    rfl

end Ahead

/-- As much is skipped up to the next directive. -/
@[simp] theorem skipToDirective_moved (current : Bool) (s : State) :
    skipToDirective (c.behind front) current (s.moved front.size) =
      Prod.map (SyntaxTree.moved front.size) (State.moved front.size)
        (skipToDirective c current s) := by
  simp only [skipToDirective, wrap_moved]
  have hahead (k : Nat) : (s.moved front.size).ahead.drop k =
      (s.ahead.drop k).map (Token.moved front.size) := List.map_drop.symm
  rw [hahead, beforeDirective_moved]

/-- A routine for lists that goes on alike further on in a text. -/
def ListMoves (front : Array Char) (l l' : ListRoutine) : Prop :=
  ∀ s, l'.run (s.moved front.size) =
    Prod.map (SyntaxTree.moved front.size) (State.moved front.size) (l.run s)

/-- A routine for values that goes on alike further on in a text. -/
def ValueMoves (front : Array Char) (v v' : ValueRoutine) : Prop :=
  ∀ s, v'.run (s.moved front.size) =
    Prod.map (Option.map (SyntaxTree.moved front.size)) (State.moved front.size) (v.run s)

/-- A list nested too deep is skipped alike further on. -/
theorem tooDeep_moved : ListMoves front (tooDeep c) (tooDeep (c.behind front)) := by
  intro s
  simp only [tooDeep, reportTooDeep, report_moved, wrap_moved]
  exact congrArg (fun k => Prod.map _ _ (State.wrap _ c .error k)) (bracketedLength_moved _ _ 0)

/-- Values are read alike further on if lists are. -/
theorem valueOf_moved {l l' : ListRoutine} (h : ListMoves front l l') :
    ValueMoves front (valueOf c l) (valueOf (c.behind front) l') := by
  intro s
  simp only [valueOf, kind_moved, wrap_moved, skip_moved, h s, reportNoValue, report_moved]
  split
  · rfl
  · split <;> rfl

/-- Items are read alike further on if values are. -/
theorem items_moved {v v' : ValueRoutine} (h : ValueMoves front v v') (s : State) :
    items (c.behind front) v' (s.moved front.size) =
      Prod.map (List.map (SyntaxTree.moved front.size)) (State.moved front.size) (items c v s) := by
  fun_induction items c v s with
  | case1 s hends => exact items_end (by rwa [kind_moved])
  | case2 s hends next heq later ih =>
    have hrun := h s
    rw [heq] at hrun
    rw [items_none (by simpa using hends) hrun, skip_moved, ih, wrap_moved]
    rfl
  | case3 s hends value next heq same hcomma =>
    have hrun := h s
    rw [heq] at hrun
    have haccept := accept_moved front c next .comma
    rw [hcomma] at haccept
    exact items_last (by simpa using hends) hrun haccept
  | case4 s hends value next heq comma after hcomma later ih =>
    have hrun := h s
    rw [heq] at hrun
    have haccept := accept_moved front c next .comma
    rw [hcomma] at haccept
    rw [items_more (by simpa using hends) hrun haccept, ih]
    rfl

/-- What a node stands over, some of it optional, may be moved before or after it is put
together. -/
theorem toList_moved (n : Nat) (t : Option SyntaxTree) :
    (t.map (SyntaxTree.moved n)).toList = t.toList.map (SyntaxTree.moved n) := by
  cases t <;> rfl

/-- A list is read alike further on if values are. -/
theorem listOf_moved {v v' : ValueRoutine} (h : ValueMoves front v v') :
    ListMoves front (listOf c v) (listOf (c.behind front) v') := by
  intro s
  simp only [listOf, skip_moved, items_moved h, expect_moved, leaves_moved, Prod.map, toList_moved,
    ← List.map_append, Context.source_behind, offset_moved, branch_moved]

/-- Lists are read alike further on, however many levels are left. -/
theorem lists_moved (levels : Nat) :
    ListMoves front (lists c levels) (lists (c.behind front) levels) := by
  induction levels with
  | zero => exact tooDeep_moved
  | succ levels ih => exact listOf_moved (valueOf_moved ih)

/-- Values are read alike further on, however many levels are left. -/
@[simp] theorem value_moved (levels : Nat) (s : State) :
    value (c.behind front) levels (s.moved front.size) =
      Prod.map (Option.map (SyntaxTree.moved front.size)) (State.moved front.size)
        (value c levels s) :=
  valueOf_moved (lists_moved levels) s

/-- Fields are read alike further on. -/
@[simp] theorem field_moved (s : State) :
    field (c.behind front) (s.moved front.size) =
      Prod.map (SyntaxTree.moved front.size) (State.moved front.size) (field c s) := by
  have hcontent (next : State) (found : Bool) :
      (if found then value (c.behind front) c.limit.depth (next.moved front.size)
        else (none, next.moved front.size)) =
      Prod.map (Option.map (SyntaxTree.moved front.size)) (State.moved front.size)
        (if found then value c c.limit.depth next else (none, next)) := by
    cases found with
    | false => rfl
    | true => exact value_moved c.limit.depth next
  simp only [field, wrap_moved, expect_moved, Prod.map, Option.isSome_map, Context.limit_behind]
  rw [hcontent]
  simp only [Prod.map, toList_moved, ← List.map_append, ← List.map_cons, Context.source_behind,
    offset_moved, branch_moved]

/-- Bodies are read alike further on. -/
@[simp] theorem body_moved (s : State) :
    body (c.behind front) (s.moved front.size) =
      Prod.map (List.map (SyntaxTree.moved front.size)) (State.moved front.size) (body c s) := by
  fun_induction body c s with
  | case1 s hends => exact body_end (by rwa [kind_moved])
  | case2 s hends hname comma later ih =>
    have hcomma : (field c s).2.accept c .comma = comma := rfl
    rw [body_field (by simpa using hends) (by simpa using hname)]
    simp only [field_moved, Prod.map, accept_moved, toList_moved, hcomma, ih, List.map_cons,
      List.map_append]
    rfl
  | case3 s hends hname reported later ih =>
    rw [body_misplaced (by simpa using hends) (by simpa using hname), kind_moved, report_moved,
      wrap_moved, skip_moved, ih]
    rfl

/-- Names of declarations are read alike further on. -/
@[simp] theorem declarationName_moved (s : State) :
    declarationName (c.behind front) (s.moved front.size) =
      Prod.map (List.map (SyntaxTree.moved front.size)) (State.moved front.size)
        (declarationName c s) := by
  simp only [declarationName, kind_moved, wrap_moved, skip_moved, report_moved]
  split <;> rfl

/-- Blocks are read alike further on. -/
@[simp] theorem block_moved (s : State) :
    block (c.behind front) (s.moved front.size) =
      Prod.map (List.map (SyntaxTree.moved front.size)) (State.moved front.size) (block c s) := by
  rw [block, block, expect_moved]
  rcases s.expect c .lbrace with ⟨brace, next⟩
  cases brace with
  | none =>
    simp only [Prod.map, Option.map_none, skipToDirective_moved, List.map_cons, List.map_nil]
  | some brace =>
    simp only [Prod.map, Option.map_some, body_moved, expect_moved, toList_moved, List.map_cons,
      List.map_append]

/-- Declarations are read alike further on. -/
@[simp] theorem declaration_moved (s : State) :
    declaration (c.behind front) (s.moved front.size) =
      Prod.map (SyntaxTree.moved front.size) (State.moved front.size) (declaration c s) := by
  rw [declaration, declaration, text_moved]
  split
  · rw [report_moved, skipToDirective_moved]
  · simp only [skip_moved, declarationName_moved, block_moved, Prod.map, leaves_moved,
      ← List.map_append, Context.source_behind, offset_moved, branch_moved]

/-- Stray tokens are read alike further on. -/
@[simp] theorem strayTokens_moved (s : State) :
    strayTokens (c.behind front) (s.moved front.size) =
      Prod.map (SyntaxTree.moved front.size) (State.moved front.size) (strayTokens c s) := by
  rw [strayTokens, strayTokens, kind_moved, report_moved, skipToDirective_moved]

/-- The declarations of a document are read alike further on in a text. -/
theorem declarations_moved (s : State) :
    declarations (c.behind front) (s.moved front.size) =
      Prod.map (List.map (SyntaxTree.moved front.size)) (State.moved front.size)
        (declarations c s) := by
  fun_induction declarations c s with
  | case1 s hend => exact declarations_end (by rwa [kind_moved])
  | case2 s hend next later ih =>
    by_cases hdirective : s.kind = .directive
    · have hnext : next = declaration c s := dif_pos hdirective
      rw [declarations_directive (by rwa [kind_moved]), declaration_moved, ← hnext]
      simp only [Prod.map, ih, List.map_cons, later]
    · have hnext : next = strayTokens c s := dif_neg hdirective
      rw [declarations_stray (by rwa [kind_moved]) (by rwa [kind_moved]), strayTokens_moved, ← hnext]
      simp only [Prod.map, ih, List.map_cons, later]

end Parse

end WorldDoc
