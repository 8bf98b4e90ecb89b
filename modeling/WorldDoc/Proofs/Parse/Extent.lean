import WorldDoc.Proofs.Parse.Totality
import WorldDoc.Proofs.Syntax.Extent

/-!
# The ranges of parsed trees are exact

Whatever the text, each element of its tree has the range of its tokens, without what is passed over
before and behind them; an element without tokens is an empty place behind the token before it; and
no two elements overlap that are not one within the other (`exact_of_occurs`).

## Shape of the proof

Two things make a tree that is read a placed one (`Reads.laid`). Wherever parsing stands, the last
token taken ends before the current one starts (`Standing`); the actions keep that. And a node that
holds tokens has one in its first child (`Leads`); that is what the routines see to, one by one.
Where they open a node they take a token first, and if none is left the node stays without any.
-/

namespace WorldDoc.Parse

open State SyntaxTree

variable {c : Context} {s s' : State} {ts : List SyntaxTree}

/-! ## Where parsing stands -/

/-- The tokens ahead are an end of those of the text, and the last token taken ends before the
current one starts. -/
structure Standing (c : Context) (s : State) : Prop where
  text : s.ahead <:+ significantTokens c.source.toList
  offset : s.offset ≤ (s.range c).start

/-- At the beginning the whole text is ahead. -/
theorem standing_initial (source : SourceText) (limit : NestingLimit) :
    Standing ⟨source, limit⟩ (.initial source.toList) :=
  ⟨List.suffix_rfl, Nat.zero_le _⟩

/-- To record a report does not move on. -/
theorem offset_record (s : State) (d : Diagnostic) : (s.record d).offset = s.offset := by
  unfold record
  grind

/-- A report leaves the state standing where it stood. -/
theorem Standing.report (h : Standing c s) (finding : Finding) (message : Option String) :
    Standing c (s.report c finding message) := by
  refine ⟨by rw [report_ahead]; exact h.text, ?_⟩
  rw [range_eq_rangeAt, report_ahead]
  exact (offset_record s _).symm ▸ h.offset

section Token

variable {t : Token} {later : List Token}

/-- The current token is one of the text. -/
theorem Standing.mem (h : Standing c s) (hahead : s.ahead = t :: later) :
    t ∈ tokens c.source.toList :=
  (List.mem_filter.mp (h.text.subset (hahead ▸ List.mem_cons_self))).1

/-- A token ends before the next one starts, or before the end of the text. -/
theorem Standing.skip_one (h : Standing c s) (hahead : s.ahead = t :: later) :
    Standing c (s.skip 1) := by
  have hlater : (s.skip 1).ahead = later := skip_one_ahead hahead
  have hoffset : (s.skip 1).offset = t.stop := by
    rw [skip, hahead]
    rfl
  have htext : t :: later <:+ significantTokens c.source.toList := hahead ▸ h.text
  refine ⟨hlater ▸ (List.suffix_cons t later).trans htext, ?_⟩
  rw [range_eq_rangeAt, hlater, hoffset]
  cases later with
  | nil => exact stop_le_length_of_mem_tokens (h.mem hahead)
  | cons u later =>
    have hpairwise := (pairwise_tokens c.source.toList).sublist
      (htext.sublist.trans List.filter_sublist)
    exact List.rel_of_pairwise_cons hpairwise List.mem_cons_self

end Token

/-- Reading leads to a state that stands. -/
theorem Reads.standing (h : Reads c s ts s') (hstanding : Standing c s) : Standing c s' := by
  induction h with
  | nothing s => exact hstanding
  | token h => exact hstanding.skip_one h
  | report s finding message => exact hstanding.report finding message
  | node kind h ih => exact ih hstanding
  | append earlier later ih₁ ih₂ => exact ih₂ (ih₁ hstanding)

/-- The end of the last token taken is the end of the last token of what was read. -/
theorem Reads.offset_eq (h : Reads c s ts s') : s'.offset = endOf s.offset (leavesOf ts) := by
  induction h with
  | nothing s => rfl
  | token h =>
    rw [skip, h]
    rfl
  | report s finding message => exact offset_record s _
  | node kind h ih => rw [leavesOf_branch, ih]
  | append earlier later ih₁ ih₂ => rw [ih₂, ih₁, leavesOf_append, endOf_append]

/-! ## Nodes that begin with a token -/

/-- Each node of the tree that holds a token has one in its first child. -/
inductive Leads : SyntaxTree → Prop where
  | token (kind : SyntaxKind) (range : TextRange) (text : String) : Leads (.token kind range text)
  | node {kind : SyntaxKind} {range : TextRange} {text : String} {elements : List SyntaxTree}
    (hled : Led elements) (helements : ∀ t ∈ elements, Leads t) :
    Leads (.node kind range text elements)

/-- What is read is laid out from where the reading began. -/
theorem Reads.laid (h : Reads c s ts s') (hstanding : Standing c s) (hleads : ∀ t ∈ ts, Leads t) :
    Laid c.source s.offset ts := by
  induction h with
  | nothing s => trivial
  | @token s t later hahead =>
    have hmem := hstanding.mem hahead
    have hoffset := hstanding.offset
    rw [range_eq_rangeAt, hahead] at hoffset
    exact ⟨⟨hoffset, stop_le_length_of_mem_tokens hmem, rfl⟩, trivial⟩
  | report s finding message => trivial
  | node kind h ih =>
    cases hleads _ (List.mem_singleton.mpr rfl) with
    | node hled helements => exact ⟨⟨rfl, rfl, hled, ih hstanding helements⟩, trivial⟩
  | append earlier later ih₁ ih₂ =>
    obtain ⟨hearlier, hlater⟩ := List.forall_mem_append.mp hleads
    rw [laid_append, ← earlier.offset_eq]
    exact ⟨ih₁ hstanding hearlier, ih₂ (earlier.standing hstanding) hlater⟩

/-- A row without leaves is led by nothing. -/
theorem led_of_leavesOf_eq_nil (h : leavesOf ts = []) : Led ts := by
  cases ts with
  | nil => trivial
  | cons first later => exact fun _ => (List.append_eq_nil_iff.mp h).2

/-- Elements begin with a token if their first one does unless no token is left. -/
theorem Reads.led {first : SyntaxTree} {later : List SyntaxTree}
    (h : Reads c s (first :: later) s') (hfirst : s.ahead ≠ [] → first.leaves ≠ []) :
    Led (first :: later) := by
  by_cases hahead : s.ahead = []
  · obtain ⟨taken, htaken, hleaves⟩ := h.exists_taken
    obtain ⟨rfl, -⟩ := List.append_eq_nil_iff.mp (htaken.symm.trans hahead)
    exact led_of_leavesOf_eq_nil hleaves
  · exact fun hnil => absurd hnil (hfirst hahead)

/-- A row that begins with a leaf is led by it. -/
theorem Reads.led_leaves_one {later : List SyntaxTree} (h : Reads c s (s.leaves c 1 ++ later) s') :
    Led (s.leaves c 1 ++ later) := by
  cases hahead : s.ahead with
  | nil =>
    obtain ⟨taken, htaken, hleaves⟩ := h.exists_taken
    obtain ⟨rfl, -⟩ := List.append_eq_nil_iff.mp (htaken.symm.trans hahead)
    exact led_of_leavesOf_eq_nil hleaves
  | cons t rest =>
    rw [leaves_one hahead]
    exact fun hnil => absurd hnil (List.cons_ne_nil _ _)

/-- An element that takes a token holds one. -/
theorem leaves_ne_nil {t : SyntaxTree} {next : State} (h : Reads c s [t] next)
    (hlength : next.ahead.length ≤ s.ahead.length - 1) (hahead : s.ahead ≠ []) :
    t.leaves ≠ [] := by
  obtain ⟨taken, htaken, hleaves⟩ := h.exists_taken
  intro hnil
  rw [leavesOf, leavesOf, List.append_nil, hnil] at hleaves
  obtain rfl := List.map_eq_nil_iff.mp hleaves.symm
  have := List.length_pos_iff.mpr hahead
  rw [List.nil_append] at htaken
  rw [htaken] at hlength this
  omega

/-- Leaves lead. -/
theorem leads_leaves (n : Nat) : ∀ t ∈ s.leaves c n, Leads t := by
  intro t ht
  obtain ⟨token, -, rfl⟩ := List.mem_map.mp ht
  exact .token _ _ _

/-- A node around leaves leads. -/
theorem leads_wrap (kind : NodeKind) (n : Nat) : Leads (s.wrap c kind n).1 := by
  refine .node ?_ (leads_leaves n)
  cases hleaves : s.leaves c n with
  | nil => trivial
  | cons first later =>
    have hmem : first ∈ s.leaves c n := hleaves ▸ List.mem_cons_self
    obtain ⟨t, -, rfl⟩ := List.mem_map.mp hmem
    exact fun hnil => absurd hnil (List.cons_ne_nil _ _)

/-- A token that is taken if it is there leads. -/
theorem leads_accept (kind : TokenKind) : ∀ t ∈ (s.accept c kind).1.toList, Leads t := by
  unfold accept
  split
  · simp
  · split
    · exact List.forall_mem_singleton.mpr (.token _ _ _)
    · simp

/-- A token that is expected leads. -/
theorem leads_expect (kind : TokenKind) : ∀ t ∈ (s.expect c kind).1.toList, Leads t := by
  have h := leads_accept (c := c) (s := s) kind
  unfold expect
  split
  · rename_i leaf next heq
    rwa [heq] at h
  · simp

/-! ## The routines -/

/-- What is skipped up to a directive leads. -/
theorem leads_skipToDirective (current : Bool) (s : State) :
    Leads (skipToDirective c current s).1 :=
  leads_wrap _ _

/-- A value leads where lists do. -/
theorem leads_valueOf {list : ListRoutine} (hlist : ∀ s, Leads (list.run s).1) (s : State) :
    ∀ t ∈ ((valueOf c list).run s).1.toList, Leads t := by
  simp only [valueOf]
  split
  · exact List.forall_mem_singleton.mpr (hlist s)
  · split
    · exact List.forall_mem_singleton.mpr (leads_wrap _ _)
    · simp

/-- The items of a list lead where values do. -/
theorem leads_items {element : ValueRoutine}
    (helement : ∀ s, ∀ t ∈ (element.run s).1.toList, Leads t) (s : State) :
    ∀ t ∈ (items c element s).1, Leads t := by
  fun_induction items c element s with
  | case1 s h => simp
  | case2 s h next heq later ih => exact List.forall_mem_cons.mpr ⟨leads_wrap _ _, ih⟩
  | case3 s h value next heq after hcomma =>
    have hvalue := helement s
    rwa [heq] at hvalue
  | case4 s h value next heq comma after hcomma later ih =>
    have hvalue := helement s
    rw [heq] at hvalue
    have haccept := leads_accept (c := c) (s := next) .comma
    rw [hcomma] at haccept
    exact List.forall_mem_append.mpr ⟨hvalue, List.forall_mem_append.mpr ⟨haccept, ih⟩⟩

/-- A list leads where the values in it do. -/
theorem leads_listOf {element : ValueRoutine}
    (hreads : ∀ s, Reads c s (element.run s).1.toList (element.run s).2)
    (helement : ∀ s, ∀ t ∈ (element.run s).1.toList, Leads t) (s : State) :
    Leads ((listOf c element).run s).1 := by
  refine .node (Reads.led_leaves_one ((Reads.leaves s 1).append
    ((reads_items hreads (s.skip 1)).append (Reads.expect _ .rbracket)))) ?_
  simp only [List.forall_mem_append]
  exact ⟨leads_leaves 1, leads_items helement _, leads_expect _⟩

/-- Lists lead, however many levels are left. -/
theorem leads_lists (levels : Nat) (s : State) : Leads ((lists c levels).run s).1 := by
  induction levels generalizing s with
  | zero => exact leads_wrap _ _
  | succ levels ih => exact leads_listOf (reads_valueOf (reads_lists levels)) (leads_valueOf ih) s

/-- Values lead, however many levels are left. -/
theorem leads_value (levels : Nat) (s : State) :
    ∀ t ∈ (value c levels s).1.toList, Leads t :=
  leads_valueOf (leads_lists levels) s

/-- A field leads. -/
theorem leads_field (s : State) : Leads (field c s).1 := by
  refine .node (Reads.led (reads_fieldElements s) fun hahead => ?_) ?_
  · exact leaves_ne_nil (Reads.wrap s .fieldKey 1) (by simp [State.wrap]) hahead
  · simp only [List.forall_mem_cons, List.forall_mem_append]
    refine ⟨leads_wrap _ _, leads_expect _, ?_⟩
    split
    · exact leads_value _ _
    · simp

/-- The elements of a body lead. -/
theorem leads_body (s : State) : ∀ t ∈ (body c s).1, Leads t := by
  fun_induction body c s with
  | case1 s h => simp
  | case2 s h hname comma later ih =>
    simp only [List.forall_mem_cons, List.forall_mem_append]
    exact ⟨leads_field s, leads_accept _, ih⟩
  | case3 s h hname reported later ih => exact List.forall_mem_cons.mpr ⟨leads_wrap _ _, ih⟩

/-- The name of a declaration leads. -/
theorem leads_declarationName (s : State) : ∀ t ∈ (declarationName c s).1, Leads t := by
  unfold declarationName
  split
  · exact List.forall_mem_singleton.mpr (leads_wrap _ _)
  · simp

/-- The elements of a block lead. -/
theorem leads_block (s : State) : ∀ t ∈ (block c s).1, Leads t := by
  have hopen := leads_expect (c := c) (s := s) .lbrace
  unfold block
  split
  · exact List.forall_mem_singleton.mpr (leads_skipToDirective _ _)
  · rename_i brace next heq
    rw [heq] at hopen
    simp only [List.forall_mem_cons, List.forall_mem_append]
    exact ⟨hopen brace (by simp), leads_body next, leads_expect _⟩

/-- A declaration leads. -/
theorem leads_declaration (s : State) : Leads (declaration c s).1 := by
  unfold declaration
  split
  · exact leads_skipToDirective _ _
  · refine .node (Reads.led_leaves_one ((Reads.leaves s 1).append
      ((reads_declarationName (s.skip 1)).append (reads_block _)))) ?_
    simp only [List.forall_mem_append]
    exact ⟨leads_leaves 1, leads_declarationName _, leads_block _⟩

/-- The elements of a document lead. -/
theorem leads_declarations (s : State) : ∀ t ∈ (declarations c s).1, Leads t := by
  fun_induction declarations c s with
  | case1 s h => simp
  | case2 s h next later ih =>
    refine List.forall_mem_cons.mpr ⟨?_, ih⟩
    simp only [next]
    split
    · exact leads_declaration s
    · exact leads_skipToDirective _ _

/-- Every element directly under the document takes a token. -/
theorem led_declarations (s : State) : Led (declarations c s).1 := by
  rw [declarations]
  split
  · trivial
  · rename_i hkind
    have hahead : s.ahead ≠ [] := fun hnil => hkind (by rw [State.kind, hnil])
    refine fun hnil => absurd hnil ?_
    split
    · exact leaves_ne_nil (reads_declaration s) (declaration_ahead_length_le c s) hahead
    · exact leaves_ne_nil (reads_strayTokens s) (strayTokens_ahead_length_le c s) hahead

/-- The node over the declarations leads. -/
theorem leads_sourceFile (s : State) : Leads (sourceFile c s).1 :=
  .node (led_declarations s) (leads_declarations s)

end WorldDoc.Parse

namespace WorldDoc.Document

open SyntaxTree

/-- The whole tree of a text is placed in it. -/
theorem placed_root (source : SourceText) (limit : NestingLimit) :
    Placed source 0 (parse source limit).root := by
  have hreads := Parse.reads_sourceFile (c := ⟨source, limit⟩) (.initial source.toList)
  have hleads := Parse.leads_sourceFile (c := ⟨source, limit⟩) (.initial source.toList)
  have hroot : ∀ t ∈ [(parse source limit).root], Parse.Leads t :=
    List.forall_mem_singleton.mpr (.node (fun _ => rfl) (List.forall_mem_singleton.mpr hleads))
  exact ((hreads.node .root).laid (Parse.standing_initial source limit) hroot).1

/-- The tokens of a parsed tree are the significant tokens of the text, and every element of the
tree has exactly the range that they give it: its text is the slice at its range, it ranges from the
start of its first token to the end of its last one, or it is the empty place behind the last token
before it if it holds none; the elements of a node are in order without overlap and within the node;
and all lie within the text. -/
theorem exact_of_occurs (source : SourceText) (limit : NestingLimit) :
    ((parse source limit).root.leaves = (significantTokens source.toList).map fun t =>
      (.token t.kind, t.range, String.ofList t.text)) ∧
    ∀ before t, Occurs (parse source limit).root before t → Exact source before t := by
  refine ⟨Parse.leaves_root source limit, fun before t h => ?_⟩
  obtain ⟨hplaced, hbefore⟩ := h.placed (placed_root source limit)
  exact hplaced.exact hbefore

/-- A declaration between a blank and a comment, with no name and no block. The tree ranges over its
directive. -/
theorem exact_root_of_directive :
    Occurs (parse (.ofString " @Era # e") .standard).root []
        (parse (.ofString " @Era # e") .standard).root ∧
      Exact (.ofString " @Era # e") [] (parse (.ofString " @Era # e") .standard).root ∧
        (parse (.ofString " @Era # e") .standard).root.range = ⟨1, 5, by decide⟩ := by
  obtain ⟨-, hexact⟩ := exact_of_occurs (.ofString " @Era # e") .standard
  exact ⟨.root, hexact [] _ .root, by decide +kernel⟩

end WorldDoc.Document
