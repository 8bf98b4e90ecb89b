import WorldDoc.Proofs.Parse.Acceptance
import WorldDoc.Proofs.Parse.Reporting

/-!
# Recovery at the next directive

Whatever is wrong within a declaration, reading it comes to an end at the next directive at the
latest, with one exception: a list nested too deep is skipped up to the bracket that closes it, over
any directive that comes before. `SyntaxTree.dropped` picks out the tokens that a tree drops in this
way. All other known directives open a declaration of their own, right under the node over the
document, and nothing else does (`declarations_eq_known_directives`).

## Shape of the proof

`Keeps` says what is common to all that is read within a declaration: a directive is taken only
among tokens that are dropped, and where one is dropped a list has been reported as nested too deep.
Each routine has its `keeps_…` lemma. For the report of a list not to be lost as a second one at the
same place, reading the items of a list has to start beyond all earlier reports (`Beyond`), which
each round of the loop restores by taking a token.

An element directly under the document opens with its first token, and any directive behind that is
dropped (`Opens`). The statement about whole texts is read off the sequence of these elements.
-/

namespace WorldDoc

namespace Token

/-- What a leaf shows of a token. -/
def shown (t : Token) : SyntaxKind × TextRange × String :=
  (.token t.kind, t.range, String.ofList t.text)

/-- Whether a token is a directive that declares a citizen. -/
def isKnownDirective (t : Token) : Bool :=
  t.kind = .directive && (CitizenKind.ofDirective? t.text).isSome

end Token

namespace SyntaxTree

mutual

/-- The tokens of a tree that lie in an error node directly within a list. Such a node holds a token
that starts no value, or a list nested too deep with all that was skipped along with it. -/
def dropped : SyntaxTree → List (SyntaxKind × TextRange × String)
  | token _ _ _ => []
  | node k _ _ cs => droppedOf (k = .node (.value .list)) cs

/-- The tokens that some neighbouring elements drop, directly within a list or elsewhere. -/
def droppedOf (inList : Bool) : List SyntaxTree → List (SyntaxKind × TextRange × String)
  | [] => []
  | t :: ts =>
    (if inList && t.kind = .node .error then t.leaves else t.dropped) ++ droppedOf inList ts

end

/-- Neighbouring elements drop their tokens one after the other. -/
theorem droppedOf_append (inList : Bool) (ts us : List SyntaxTree) :
    droppedOf inList (ts ++ us) = droppedOf inList ts ++ droppedOf inList us := by
  induction ts with
  | nil => rfl
  | cons t ts ih => rw [List.cons_append, droppedOf, droppedOf, ih, List.append_assoc]

/-- A node drops what its elements drop, as items where it is a list. -/
theorem dropped_branch (source : SourceText) (kind : SyntaxKind) (offset : Nat)
    (ts : List SyntaxTree) :
    (branch source kind offset ts).dropped = droppedOf (kind = .node (.value .list)) ts := rfl

/-- What elements drop is among their leaves. -/
theorem droppedOf_subset_leavesOf (inList : Bool) (ts : List SyntaxTree) :
    droppedOf inList ts ⊆ leavesOf ts := by
  cases ts with
  | nil => exact List.nil_subset _
  | cons t ts =>
    have hlater := droppedOf_subset_leavesOf inList ts
    rw [droppedOf, leavesOf]
    refine List.append_subset.mpr ⟨?_, List.Subset.trans hlater (List.subset_append_right _ _)⟩
    refine List.Subset.trans ?_ (List.subset_append_left _ _)
    split
    · exact List.Subset.refl _
    · cases t with
      | token kind range text => exact List.nil_subset _
      | node kind range text children =>
        rw [dropped, leaves]
        exact droppedOf_subset_leavesOf _ children

end SyntaxTree

namespace Parse

open State
open SyntaxTree (leavesOf droppedOf leavesOf_append leavesOf_branch droppedOf_append)

variable {c : Context} {s s' s'' : State} {ts us : List SyntaxTree} {inList : Bool}

/-! ## Leaves -/

/-- Leaves show the tokens they were taken from. -/
theorem leavesOf_leaves (s : State) (n : Nat) :
    leavesOf (s.leaves c n) = (s.ahead.take n).map (Reads.leafEntry c) := by
  rw [State.leaves]
  induction s.ahead.take n with
  | nil => rfl
  | cons t taken ih =>
    rw [List.map_cons, leavesOf, ih]
    rfl

/-- Leaves drop nothing. -/
theorem droppedOf_leaves (inList : Bool) (s : State) (n : Nat) :
    droppedOf inList (s.leaves c n) = [] := by
  rw [State.leaves]
  induction s.ahead.take n with
  | nil => rfl
  | cons t taken ih =>
    rw [List.map_cons, droppedOf, ih]
    simp [leafOf, SyntaxTree.leaf, SyntaxTree.kind, SyntaxTree.dropped]

/-! ## What is read within a declaration -/

/-- What lacks something at a place is reported with one of these two findings. -/
def Lacking (d : Diagnostic) : Prop :=
  d.code = Finding.expectedToken.code ∨ d.code = Finding.expectedValue.code

instance : DecidablePred Lacking := fun d =>
  inferInstanceAs (Decidable (d.code = Finding.expectedToken.code ∨
    d.code = Finding.expectedValue.code))

/-- From `s` on the elements `ts` are read, up to `s'`, and of the directives among their tokens all
are dropped. Where one is dropped a list was reported as nested too deep. A new report is about
something lacking, or it stands at a token that is no directive. -/
structure Keeps (c : Context) (inList : Bool) (s : State) (ts : List SyntaxTree) (s' : State) :
    Prop where
  reads : Reads c s ts s'
  directives : ∀ e ∈ leavesOf ts, e.1 = .token .directive → e ∈ droppedOf inList ts
  tooDeep : ∀ e ∈ droppedOf inList ts, e.1 = .token .directive →
    ∃ d ∈ s'.reports, d.code = Finding.nestingTooDeep.code
  reports : ∀ d ∈ s'.reports, d ∈ s.reports ∨ Lacking d ∨
    ∃ t ∈ significantTokens c.source.toList, t.kind ≠ .directive ∧ d.range = t.range

namespace Keeps

/-- Where nothing is read no directive is taken. -/
theorem nothing (s : State) : Keeps c inList s [] s where
  reads := .nothing s
  directives := fun _ he => nomatch he
  tooDeep := fun _ he => nomatch he
  reports := fun _ hd => Or.inl hd

/-- Reading on takes no directive but dropped ones, if neither part does. -/
theorem append (earlier : Keeps c inList s ts s') (later : Keeps c inList s' us s'') :
    Keeps c inList s (ts ++ us) s'' where
  reads := earlier.reads.append later.reads
  directives := by
    intro e he hdirective
    rw [leavesOf_append, List.mem_append] at he
    rw [droppedOf_append, List.mem_append]
    exact he.imp (earlier.directives e · hdirective) (later.directives e · hdirective)
  tooDeep := by
    intro e he hdirective
    rw [droppedOf_append, List.mem_append] at he
    rcases he with he | he
    · obtain ⟨d, hd, hcode⟩ := earlier.tooDeep e he hdirective
      exact ⟨d, later.reads.reports_suffix.subset hd, hcode⟩
    · exact later.tooDeep e he hdirective
  reports := by
    intro d hd
    rcases later.reports d hd with hd | hnew
    · exact earlier.reports d hd
    · exact Or.inr hnew

/-- Tokens other than directives are taken as leaves. -/
theorem leaves (s : State) (n : Nat) (h : ∀ t ∈ s.ahead.take n, t.kind ≠ .directive) :
    Keeps c inList s (s.leaves c n) (s.skip n) where
  reads := .leaves s n
  directives := by
    intro e he hdirective
    rw [leavesOf_leaves] at he
    obtain ⟨t, ht, rfl⟩ := List.mem_map.mp he
    exact absurd (SyntaxKind.token.inj hdirective) (h t ht)
  tooDeep := by
    intro e he
    rw [droppedOf_leaves] at he
    cases he
  reports := fun _ hd => Or.inl hd

/-- A node is closed. What an error node drops directly within a list is all that it holds, and that
includes whatever its elements drop. -/
theorem node (kind : NodeKind) (h : Keeps c (kind = .value .list) s ts s') :
    Keeps c inList s [.branch c.source (.node kind) s.offset ts] s' := by
  have hdropped : (SyntaxTree.branch c.source (.node kind) s.offset ts).dropped =
      droppedOf (kind = .value .list) ts := by
    simp [SyntaxTree.dropped_branch]
  have hleaves : (SyntaxTree.branch c.source (.node kind) s.offset ts).leaves = leavesOf ts := by
    rw [SyntaxTree.branch, SyntaxTree.leaves]
  refine ⟨.node kind h.reads, ?_, ?_, h.reports⟩
  · intro e he hdirective
    rw [leavesOf_branch] at he
    rw [droppedOf, droppedOf, List.append_nil, hdropped, hleaves]
    split
    · exact he
    · exact h.directives e he hdirective
  · intro e he hdirective
    rw [droppedOf, droppedOf, List.append_nil, hdropped, hleaves] at he
    split at he
    · exact h.tooDeep e (h.directives e he hdirective) hdirective
    · exact h.tooDeep e he hdirective

/-- A node over tokens other than directives takes none. -/
theorem wrap (kind : NodeKind) (s : State) (n : Nat)
    (h : ∀ t ∈ s.ahead.take n, t.kind ≠ .directive) :
    Keeps c inList s [(s.wrap c kind n).1] (s.wrap c kind n).2 :=
  node kind (leaves s n h)

/-- A node over one token that is no directive takes none. -/
theorem wrap_one (kind : NodeKind) (h : s.kind ≠ .directive) :
    Keeps c inList s [(s.wrap c kind 1).1] (s.skip 1) := by
  refine wrap kind s 1 fun t ht => ?_
  cases hahead : s.ahead with
  | nil =>
    rw [hahead] at ht
    cases ht
  | cons u later =>
    rw [hahead] at ht
    obtain rfl := List.mem_singleton.mp ht
    rwa [kind_of_ahead hahead] at h

/-- A report may be made that is about something lacking or stands at no directive. -/
theorem of_report_eq {finding : Finding} {message : Option String}
    (herror : finding.severity = .error)
    (h : ∀ d ∈ (s.report c finding message).reports, d ∈ s.reports ∨ Lacking d ∨
      ∃ t ∈ significantTokens c.source.toList, t.kind ≠ .directive ∧ d.range = t.range) :
    Keeps c inList s [] (s.report c finding message) where
  reads := .report s finding message herror
  directives := fun _ he => nomatch he
  tooDeep := fun _ he => nomatch he
  reports := h

/-- Reporting that something is lacking. -/
theorem lacking (s : State) {finding : Finding} {message : Option String}
    (h : finding = .expectedToken ∨ finding = .expectedValue) :
    Keeps c inList s [] (s.report c finding message) := by
  have herror : finding.severity = .error := by rcases h with rfl | rfl <;> rfl
  refine of_report_eq herror fun d hd => ?_
  rcases record_reports s (finding.at (s.range c) message) with hsame | hnew
  · exact Or.inl (hsame ▸ hd)
  · rcases List.mem_cons.mp (hnew ▸ hd : d ∈ _ :: s.reports) with rfl | hd
    · exact Or.inr (Or.inl (h.imp (congrArg Finding.code) (congrArg Finding.code)))
    · exact Or.inl hd

/-- Reporting at a token that is no directive. -/
theorem misplaced (hs : Settled c s) (hkind : s.kind ≠ .directive) (heof : s.kind ≠ .eof)
    (finding : Finding) (message : Option String) (herror : finding.severity = .error := by rfl) :
    Keeps c inList s [] (s.report c finding message) := by
  obtain ⟨t, later, hahead⟩ := exists_ahead_of_kind rfl heof
  have hmem : t.1 ∈ significantTokens c.source.toList :=
    hs.text.subset (hahead ▸ List.mem_cons_self)
  refine of_report_eq herror fun d hd => ?_
  rcases record_reports s (finding.at (s.range c) message) with hsame | hnew
  · exact Or.inl (hsame ▸ hd)
  · rcases List.mem_cons.mp (hnew ▸ hd : d ∈ _ :: s.reports) with rfl | hd
    · refine Or.inr (Or.inr ⟨t.1, hmem, ?_, ?_⟩)
      · rwa [t.2]
      · show s.range c = _
        rw [State.range, hahead]
    · exact Or.inl hd

/-- Accepting a token that is no directive takes none. -/
theorem accept (s : State) {kind : TokenKind} (h : kind ≠ .directive) :
    Keeps c inList s (s.accept c kind).1.toList (s.accept c kind).2 := by
  unfold State.accept
  split
  · exact nothing s
  · rename_i t later hahead
    split
    · rename_i hkind
      rw [Option.toList_some, ← leaves_one hahead]
      refine leaves s 1 fun u hu => ?_
      rw [hahead] at hu
      obtain rfl := List.mem_singleton.mp hu
      rwa [hkind]
    · exact nothing s

/-- Expecting a token that is no directive takes none, and reports something lacking. -/
theorem expect (s : State) {kind : TokenKind} (h : kind ≠ .directive) :
    Keeps c inList s (s.expect c kind).1.toList (s.expect c kind).2 := by
  have haccept : Keeps c inList s (s.accept c kind).1.toList (s.accept c kind).2 := accept s h
  unfold State.expect
  split
  · rename_i leaf next heq
    rwa [heq] at haccept
  · rename_i same heq
    rw [heq] at haccept
    exact haccept.append (lacking same (Or.inl rfl))

end Keeps

/-! ## The routines within a declaration -/

/-- Before the end of the file a token is ahead. -/
theorem ahead_ne_nil_of_kind (h : s.kind ≠ .eof) : s.ahead ≠ [] := by
  intro hnil
  rw [State.kind, hnil] at h
  exact h rfl

/-- Behind a token that was taken all reports so far lie before the current token. -/
theorem beyond_skip_one (hs : Settled c s) (h : s.kind ≠ .eof) : Beyond c (s.skip 1) :=
  hs.beyond_skip (ahead_ne_nil_of_kind h) Nat.one_pos

/-- Where a token was accepted all reports stand before the current one. -/
theorem beyond_of_accept {kind : TokenKind} {leaf : SyntaxTree} (hs : Settled c s)
    (h : s.accept c kind = (some leaf, s')) (hkind : kind ≠ .eof) : Beyond c s' := by
  obtain ⟨t, ht⟩ := exists_of_accept h
  rw [accept_of_ahead ht t.2] at h
  obtain ⟨-, rfl⟩ := Prod.mk.inj h
  exact beyond_skip_one hs (by rwa [kind_of_ahead ht, t.2])

/-- The list is reported, so all that it drops is accounted for. -/
theorem keeps_tooDeep (hs : Settled c s) (hbeyond : Beyond c s) (hbracket : s.kind = .lbracket) :
    Keeps c true s [((tooDeep c).run s).1] ((tooDeep c).run s).2 := by
  have hreport : Keeps c true s [] (reportTooDeep c s) :=
    Keeps.misplaced hs (by rw [hbracket]; decide) (by rw [hbracket]; decide) _ _
  have hreported : ∃ d ∈ (reportTooDeep c s).reports, d.code = Finding.nestingTooDeep.code := by
    rw [reportTooDeep, hs.report_reports_of_beyond hbeyond]
    exact ⟨_, List.mem_cons_self, rfl⟩
  refine ⟨reads_tooDeep s, fun e he _ => ?_, fun _ _ _ => hreported, hreport.reports⟩
  rw [droppedOf, droppedOf, List.append_nil]
  rwa [leavesOf, leavesOf, List.append_nil] at he

/-- A value takes no directive but dropped ones, if a list does so where a bracket stands. -/
theorem keeps_valueOf {list : ListRoutine}
    (hlist : s.kind = .lbracket → Keeps c inList s [(list.run s).1] (list.run s).2) :
    Keeps c inList s ((valueOf c list).run s).1.toList ((valueOf c list).run s).2 := by
  simp only [valueOf]
  split
  · rename_i hbracket
    exact hlist hbracket
  · split
    · rename_i kind writes
      refine Keeps.wrap_one (.value kind) fun hdirective => ?_
      rw [hdirective] at writes
      cases writes
    · exact Keeps.lacking s (Or.inr rfl)

/-- Every round of the loop starts beyond all earlier reports. -/
theorem keeps_items {element : ValueRoutine}
    (helement : ∀ s, Settled c s → Beyond c s →
      Keeps c true s (element.run s).1.toList (element.run s).2)
    (hs : Settled c s) (hbeyond : Beyond c s) :
    Keeps c true s (items c element s).1 (items c element s).2 := by
  fun_induction items c element s with
  | case1 s hends => exact Keeps.nothing s
  | case2 s hends next heq later ih =>
    have hnone := helement s hs hbeyond
    rw [heq] at hnone
    -- no value starts here, so the same tokens are ahead as before
    have hkind : next.kind = s.kind := by rw [State.kind, State.kind, hnone.reads.ahead_eq]
    have hskip : Keeps c true next [(next.wrap c .error 1).1] (next.skip 1) :=
      Keeps.wrap_one .error fun h => hends (by rw [← hkind, h]; rfl)
    have hnext := hnone.reads.settled hs
    exact hnone.append (hskip.append (ih (hskip.reads.settled hnext)
      (beyond_skip_one hnext fun h => hends (by rw [← hkind, h]; rfl))))
  | case3 s hends value next heq same hcomma =>
    have hvalue := helement s hs hbeyond
    rwa [heq] at hvalue
  | case4 s hends value next heq comma after hcomma later ih =>
    have hvalue := helement s hs hbeyond
    rw [heq] at hvalue
    have hnext := hvalue.reads.settled hs
    have htaken : Keeps c true next (next.accept c .comma).1.toList (next.accept c .comma).2 :=
      Keeps.accept next (by decide)
    rw [hcomma] at htaken
    exact hvalue.append (htaken.append (ih (htaken.reads.settled hnext)
      (beyond_of_accept hnext hcomma (by decide))))

/-- A list takes no directive but dropped ones, if its values do so behind the bracket. -/
theorem keeps_listOf {element : ValueRoutine}
    (helement : ∀ s, Settled c s → Beyond c s →
      Keeps c true s (element.run s).1.toList (element.run s).2)
    (hs : Settled c s) (hbracket : s.kind = .lbracket) :
    Keeps c inList s [((listOf c element).run s).1] ((listOf c element).run s).2 := by
  obtain ⟨t, later, hahead⟩ := exists_ahead_of_kind hbracket (by decide)
  have hopen : Keeps c true s (s.leaves c 1) (s.skip 1) := by
    refine Keeps.leaves s 1 fun u hu => ?_
    rw [hahead] at hu
    obtain rfl := List.mem_singleton.mp hu
    rw [t.2]
    decide
  have hitems := keeps_items helement (hopen.reads.settled hs)
    (beyond_skip_one hs (by rw [hbracket]; decide))
  exact Keeps.node (.value .list)
    (hopen.append (hitems.append (Keeps.expect _ (by decide))))

/-- The routine for lists takes no directive but dropped ones: a list that lies too deep is dropped
and was reported. -/
theorem keeps_lists (levels : Nat) (hs : Settled c s) (hbeyond : Beyond c s)
    (hbracket : s.kind = .lbracket) :
    Keeps c true s [((lists c levels).run s).1] ((lists c levels).run s).2 := by
  induction levels generalizing s with
  | zero => exact keeps_tooDeep hs hbeyond hbracket
  | succ levels ih =>
    exact keeps_listOf (fun s hs hbeyond => keeps_valueOf (ih hs hbeyond)) hs hbracket

/-- The value of a field may be a list, as at least one level of nesting is allowed. -/
theorem keeps_value (hs : Settled c s) :
    Keeps c inList s (value c c.limit.depth s).1.toList (value c c.limit.depth s).2 := by
  obtain ⟨levels, hlevels⟩ : ∃ levels, c.limit.depth = levels + 1 :=
    ⟨c.limit.depth - 1, by have := c.limit.one_le_depth; omega⟩
  rw [hlevels]
  exact keeps_valueOf fun hbracket =>
    keeps_listOf (fun s hs hbeyond => keeps_valueOf (keeps_lists levels hs hbeyond)) hs hbracket

/-- A token that is taken for a name is no directive. -/
theorem kind_ne_directive_of_isNameToken (h : isNameToken s.kind = true) :
    s.kind ≠ .directive := by
  intro hdirective
  rw [hdirective] at h
  cases h

/-- A field takes no directive but dropped ones. -/
theorem keeps_field (hs : Settled c s) (hname : isNameToken s.kind = true) :
    Keeps c inList s [(field c s).1] (field c s).2 := by
  have hkey : Keeps c false s [(s.wrap c .fieldKey 1).1] (s.skip 1) :=
    Keeps.wrap_one .fieldKey (kind_ne_directive_of_isNameToken hname)
  have hcolon : Keeps c false (s.skip 1) ((s.skip 1).expect c .colon).1.toList
      ((s.skip 1).expect c .colon).2 := Keeps.expect _ (by decide)
  have hcontent (next : State) (hnext : Settled c next) (found : Bool) :
      Keeps c false next (if found then value c c.limit.depth next else (none, next)).1.toList
        (if found then value c c.limit.depth next else (none, next)).2 := by
    cases found with
    | false => exact Keeps.nothing next
    | true => exact keeps_value hnext
  exact Keeps.node .field (hkey.append (hcolon.append
    (hcontent _ (hcolon.reads.settled (hkey.reads.settled hs)) _)))

/-- The fields of a body take no directive but dropped ones: the loop stops before any other. -/
theorem keeps_body (hs : Settled c s) : Keeps c inList s (body c s).1 (body c s).2 := by
  fun_induction body c s with
  | case1 s hends => exact Keeps.nothing s
  | case2 s hends hname comma later ih =>
    have hfield : Keeps c inList s [(field c s).1] (field c s).2 := keeps_field hs hname
    have hcomma : Keeps c inList (field c s).2 comma.1.toList comma.2 :=
      Keeps.accept _ (by decide)
    exact hfield.append (hcomma.append (ih (hcomma.reads.settled (hfield.reads.settled hs))))
  | case3 s hends hname reported later ih =>
    have hkind : s.kind ≠ .directive := fun h => hends (by rw [h]; rfl)
    have hreport : Keeps c inList s [] reported :=
      Keeps.misplaced hs hkind (fun h => hends (by rw [h]; rfl)) _ _
    have hreported : reported.kind = s.kind := by
      rw [State.kind, State.kind, report_ahead]
    have hskip : Keeps c inList reported [(reported.wrap c .error 1).1] (reported.skip 1) :=
      Keeps.wrap_one .error (by rwa [hreported])
    exact hreport.append (hskip.append (ih (hskip.reads.settled (hreport.reads.settled hs))))

/-- The name of a declaration takes no directive. -/
theorem keeps_declarationName (s : State) :
    Keeps c inList s (declarationName c s).1 (declarationName c s).2 := by
  unfold declarationName
  split
  · rename_i hname
    exact Keeps.wrap_one .name (kind_ne_directive_of_isNameToken hname)
  · exact Keeps.lacking s (Or.inl rfl)

/-- What stands before the next directive holds none. -/
theorem kind_ne_directive_of_mem_take (ahead : List Token) :
    ∀ t ∈ ahead.take (beforeDirective ahead), t.kind ≠ .directive := by
  intro t ht
  have htake := List.prefix_iff_eq_take.mp
    (List.takeWhile_prefix (fun t : Token => decide (t.kind ≠ .directive)) (l := ahead))
  rw [beforeDirective, ← htake] at ht
  have hall := List.all_takeWhile (p := fun t : Token => decide (t.kind ≠ .directive)) (l := ahead)
  exact of_decide_eq_true (List.all_eq_true.mp hall t ht)

/-- The block of a declaration takes no directive but dropped ones. -/
theorem keeps_block (hs : Settled c s) : Keeps c inList s (block c s).1 (block c s).2 := by
  have hopen : Keeps c inList s (s.expect c .lbrace).1.toList (s.expect c .lbrace).2 :=
    Keeps.expect s (by decide)
  unfold block
  split
  · rename_i next heq
    rw [heq] at hopen
    refine hopen.append (Keeps.wrap .error next _ ?_)
    simpa using kind_ne_directive_of_mem_take next.ahead
  · rename_i brace next heq
    rw [heq] at hopen
    exact hopen.append ((keeps_body (hopen.reads.settled hs)).append (Keeps.expect _ (by decide)))

/-! ## The elements of a document -/

/-- From `s` on one element is read directly under the document. It opens with its first token `t`
and is a declaration exactly if that is a known directive. Of the other tokens every directive is
dropped, and then a list was reported as nested too deep. -/
structure Opens (c : Context) (s : State) (element : SyntaxTree) (t : Token) (rest : List Token)
    (s' : State) : Prop where
  reads : Reads c s [element] s'
  ahead : s.ahead = t :: (rest ++ s'.ahead)
  leaves : element.leaves = (t :: rest).map (Reads.leafEntry c)
  isNode : element.isNode = true
  isDeclaration : element.kind.isDeclaration = t.isKnownDirective
  dropped : element.dropped ⊆ rest.map (Reads.leafEntry c)
  directives : ∀ u ∈ rest, u.kind = .directive → Reads.leafEntry c u ∈ element.dropped
  tooDeep : ∀ e ∈ element.dropped, e.1 = .token .directive →
    ∃ d ∈ s'.reports, d.code = Finding.nestingTooDeep.code

/-- What is skipped up to the next directive holds none behind its first token. -/
theorem opens_skipToDirective {t : Token} {later : List Token} (hahead : s.ahead = t :: later)
    (hunknown : t.isKnownDirective = false) :
    Opens c s (skipToDirective c true s).1 t (later.take (beforeDirective later))
      (skipToDirective c true s).2 := by
  have htaken : s.ahead.take (1 + beforeDirective later) =
      t :: later.take (beforeDirective later) := by
    rw [hahead, Nat.add_comm, List.take_succ_cons]
  have hlength : 1 + beforeDirective (s.ahead.drop 1) = 1 + beforeDirective later := by
    rw [hahead]
    rfl
  have helement : skipToDirective c true s = s.wrap c .error (1 + beforeDirective later) := by
    rw [← hlength]
    rfl
  have hdropped : (s.wrap c .error (1 + beforeDirective later)).1.dropped = [] :=
    droppedOf_leaves _ s _
  rw [helement]
  refine ⟨Reads.wrap s .error _, ?_, ?_, rfl, ?_, ?_, ?_, ?_⟩
  · rw [State.wrap, skip_ahead, ← List.cons_append, ← htaken, List.take_append_drop]
  · have hleaves := leavesOf_leaves (c := c) s (1 + beforeDirective later)
    rw [htaken] at hleaves
    rw [← hleaves, State.wrap, SyntaxTree.branch, SyntaxTree.leaves]
  · rw [hunknown]
    rfl
  · rw [hdropped]
    exact List.nil_subset _
  · intro u hu hdirective
    exact absurd hdirective (kind_ne_directive_of_mem_take later u hu)
  · intro e he
    rw [hdropped] at he
    cases he

/-- A declaration opens with its directive, and whatever is wrong within it the next directive is
left alone. -/
theorem opens_declaration (hs : Settled c s) {kind : CitizenKind}
    {t : Token} {later : List Token} (hahead : s.ahead = t :: later) (ht : t.kind = .directive)
    (hkind : CitizenKind.ofDirective? t.text = some kind) :
    ∃ rest, Opens c s (declaration c s).1 t rest (declaration c s).2 := by
  have hskip : Settled c (s.skip 1) := (Reads.leaves s 1).settled hs
  have hname : Keeps c false (s.skip 1) (declarationName c (s.skip 1)).1
      (declarationName c (s.skip 1)).2 := keeps_declarationName _
  have hinner := hname.append (keeps_block (hname.reads.settled hskip))
  obtain ⟨rest, hrest, hleaves⟩ := hinner.reads.exists_taken
  have hread : declaration c s = (.branch c.source (.node (.declaration kind)) s.offset
      (s.leaves c 1 ++ ((declarationName c (s.skip 1)).1 ++
        (block c (declarationName c (s.skip 1)).2).1)),
      (block c (declarationName c (s.skip 1)).2).2) := by
    rw [declaration, text_of_ahead hahead, hkind]
  have hdropped : (declaration c s).1.dropped = droppedOf false
      ((declarationName c (s.skip 1)).1 ++ (block c (declarationName c (s.skip 1)).2).1) := by
    rw [hread, SyntaxTree.dropped_branch, droppedOf_append, droppedOf_leaves]
    simp
  rw [skip_one_ahead hahead] at hrest
  refine ⟨rest, reads_declaration s, ?_, ?_, ?_, ?_, ?_, ?_, ?_⟩
  · rw [hread, hahead, hrest]
  · rw [hread, leaves_one hahead, SyntaxTree.branch, SyntaxTree.leaves, List.singleton_append,
      leavesOf, hleaves]
    rfl
  · rw [hread]
    rfl
  · rw [hread, Token.isKnownDirective, ht, hkind]
    rfl
  · rw [hdropped, ← hleaves]
    exact SyntaxTree.droppedOf_subset_leavesOf _ _
  · intro u hu hdirective
    rw [hdropped]
    refine hinner.directives _ ?_ (congrArg SyntaxKind.token hdirective)
    rw [hleaves]
    exact List.mem_map_of_mem hu
  · intro e he hdirective
    rw [hdropped] at he
    rw [hread]
    exact hinner.tooDeep e he hdirective

/-- A round of the loop over a document. -/
theorem exists_opens (hs : Settled c s) (heof : s.kind ≠ .eof) :
    ∃ t rest, Opens c s
      (if s.kind = .directive then declaration c s else strayTokens c s).1 t rest
      (if s.kind = .directive then declaration c s else strayTokens c s).2 := by
  obtain ⟨t, later, hahead⟩ := exists_ahead_of_kind rfl heof
  have hkind : s.kind = t.1.kind := kind_of_ahead hahead
  -- a report does not change what is ahead
  have hskipped (finding : Finding) (message : Option String) (herror : finding.severity = .error)
      (h : t.1.isKnownDirective = false) :
      ∃ u rest, Opens c s (skipToDirective c true (s.report c finding message)).1 u rest
        (skipToDirective c true (s.report c finding message)).2 := by
    have hreport : (s.report c finding message).ahead = t.1 :: later := by
      rw [report_ahead, hahead]
    have hopens := opens_skipToDirective (c := c) hreport h
    exact ⟨_, _, { hopens with
      reads := Reads.of_report hopens.reads herror
      ahead := report_ahead s c finding message ▸ hopens.ahead }⟩
  by_cases hdirective : s.kind = .directive
  · rw [if_pos hdirective]
    cases hknown : CitizenKind.ofDirective? t.1.text with
    | some kind =>
      obtain ⟨rest, hopens⟩ := opens_declaration hs hahead (hkind ▸ hdirective) hknown
      exact ⟨_, rest, hopens⟩
    | none =>
      rw [declaration, text_of_ahead hahead, hknown]
      exact hskipped _ _ rfl (by
        rw [Token.isKnownDirective, hknown, Option.isSome_none, Bool.and_false])
  · rw [if_neg hdirective]
    exact hskipped _ _ rfl (by
      rw [Token.isKnownDirective, decide_eq_false (hkind ▸ hdirective), Bool.false_and])

/-! ## Tokens at their places -/

/-- What a leaf shows is read off its token alone. -/
theorem leafEntry_eq_shown {t : Token} (h : t ∈ significantTokens c.source.toList) :
    Reads.leafEntry c t = t.shown := by
  rw [Reads.leafEntry, Token.shown, slice_range_of_mem_tokens (List.mem_filter.mp h).1]

/-- No two tokens of a text show the same, as they lie at different places. -/
theorem nodup_leafEntry {ahead : List Token} (h : ahead <:+ significantTokens c.source.toList) :
    (ahead.map (Reads.leafEntry c)).Nodup := by
  have hstart := (pairwise_start c.source.toList).sublist h.sublist
  refine List.pairwise_map.mpr (hstart.imp fun hlt heq => ?_)
  exact Nat.ne_of_lt hlt (congrArg (fun e => e.2.1.start) heq)

/-- Nothing is ahead at the end of the file. -/
theorem Settled.ahead_eq_nil (h : Settled c s) (heof : s.kind = .eof) : s.ahead = [] := by
  cases hahead : s.ahead with
  | nil => rfl
  | cons t later =>
    have hmem : t ∈ significantTokens c.source.toList :=
      h.text.subset (hahead ▸ List.mem_cons_self)
    rw [kind_of_ahead hahead] at heof
    exact absurd heof (kind_ne_eof_of_mem_tokens (List.mem_filter.mp hmem).1)

/-- The known directives among some tokens that are not dropped. -/
def keptDirectives (c : Context) (dropped : List (SyntaxKind × TextRange × String))
    (ahead : List Token) : List Token :=
  ahead.filter fun t => t.isKnownDirective && Reads.leafEntry c t ∉ dropped

/-- Of the tokens of an element only the first may be a known directive that is not dropped, and
what later elements drop makes no difference to that. -/
theorem Opens.keptDirectives_eq {element : SyntaxTree} {t : Token} {rest : List Token}
    {later : List (SyntaxKind × TextRange × String)} (h : Opens c s element t rest s')
    (hs : Settled c s) (hlater : later ⊆ s'.ahead.map (Reads.leafEntry c)) :
    keptDirectives c (element.dropped ++ later) s.ahead =
      [t].filter Token.isKnownDirective ++ keptDirectives c later s'.ahead := by
  have hnodup : ((t :: (rest ++ s'.ahead)).map (Reads.leafEntry c)).Nodup :=
    nodup_leafEntry (h.ahead ▸ hs.text)
  rw [List.map_cons, List.map_append, List.nodup_cons] at hnodup
  obtain ⟨hfirst, hnodup⟩ := hnodup
  obtain ⟨-, -, hdisjoint⟩ := List.nodup_append.mp hnodup
  have htop : keptDirectives c (element.dropped ++ later) [t] =
      [t].filter Token.isKnownDirective := by
    refine List.filter_congr fun u hu => ?_
    obtain rfl := List.mem_singleton.mp hu
    have hkept : Reads.leafEntry c u ∉ element.dropped ++ later := by
      intro hmem
      refine hfirst (List.mem_append.mpr ?_)
      exact (List.mem_append.mp hmem).imp (h.dropped ·) (hlater ·)
    simp [hkept]
  have hrest : keptDirectives c (element.dropped ++ later) rest = [] := by
    refine List.filter_eq_nil_iff.mpr fun u hu hkept => ?_
    rw [Bool.and_eq_true, Token.isKnownDirective, Bool.and_eq_true] at hkept
    have hdropped := h.directives u hu (of_decide_eq_true hkept.1.1)
    exact of_decide_eq_true hkept.2 (List.mem_append_left later hdropped)
  have hafter : keptDirectives c (element.dropped ++ later) s'.ahead =
      keptDirectives c later s'.ahead := by
    refine List.filter_congr fun u hu => ?_
    have hnot : Reads.leafEntry c u ∉ element.dropped := fun hmem =>
      hdisjoint _ (h.dropped hmem) _ (List.mem_map_of_mem hu) rfl
    simp [hnot]
  rw [h.ahead, ← List.singleton_append, keptDirectives, List.filter_append, List.filter_append]
  simp only [keptDirectives] at htop hrest hafter
  rw [htop, hrest, hafter, List.nil_append]
  rfl

/-- The known directives that a document does not drop are those that open its declarations. -/
theorem declarations_keptDirectives (hs : Settled c s) :
    ((declarations c s).1.filter (·.kind.isDeclaration)).map (·.leaves.head?) =
      (keptDirectives c (droppedOf false (declarations c s).1) s.ahead).map
        (some ∘ Reads.leafEntry c) := by
  fun_induction declarations c s with
  | case1 s heof =>
    rw [hs.ahead_eq_nil heof]
    rfl
  | case2 s heof next later ih =>
    obtain ⟨t, rest, hopens⟩ : ∃ t rest, Opens c s next.1 t rest next.2 := exists_opens hs heof
    -- later elements have none of the tokens of this one, so they drop none of them
    have hlater : droppedOf false later.1 ⊆ next.2.ahead.map (Reads.leafEntry c) := by
      obtain ⟨taken, hahead, hleaves⟩ := (reads_declarations (c := c) next.2).exists_taken
      refine List.Subset.trans (SyntaxTree.droppedOf_subset_leavesOf _ _) ?_
      rw [hahead, List.map_append, ← hleaves]
      exact List.subset_append_left _ _
    have hdropped : droppedOf false (next.1 :: later.1) =
        next.1.dropped ++ droppedOf false later.1 := by
      rw [droppedOf]
      rfl
    have hkept := hopens.keptDirectives_eq hs hlater
    have hlast := ih (hopens.reads.settled hs)
    have hdeclaration := hopens.isDeclaration
    have hhead : next.1.leaves.head? = some (Reads.leafEntry c t) := by
      rw [hopens.leaves]
      rfl
    rw [hdropped, hkept, List.map_append, ← hlast, List.filter_cons, hdeclaration]
    cases hknown : t.isKnownDirective with
    | false => simp [hknown, later]
    | true => simp [hknown, hhead, later]

/-- No element directly under the document is a mere token. -/
theorem declarations_isNode (hs : Settled c s) :
    ∀ element ∈ (declarations c s).1, element.isNode = true := by
  fun_induction declarations c s with
  | case1 s heof => exact List.forall_mem_nil _
  | case2 s heof next later ih =>
    obtain ⟨t, rest, hopens⟩ : ∃ t rest, Opens c s next.1 t rest next.2 := exists_opens hs heof
    exact List.forall_mem_cons.mpr ⟨hopens.isNode, ih (hopens.reads.settled hs)⟩

/-- Where a document drops a directive, a list was reported as nested too deep. -/
theorem declarations_tooDeep (hs : Settled c s) :
    ∀ e ∈ droppedOf false (declarations c s).1, e.1 = .token .directive →
      ∃ d ∈ (declarations c s).2.reports, d.code = Finding.nestingTooDeep.code := by
  fun_induction declarations c s with
  | case1 s heof => exact List.forall_mem_nil _
  | case2 s heof next later ih =>
    obtain ⟨t, rest, hopens⟩ : ∃ t rest, Opens c s next.1 t rest next.2 := exists_opens hs heof
    intro e he hdirective
    rcases List.mem_append.mp he with he | he
    · obtain ⟨d, hd, hcode⟩ := hopens.tooDeep e he hdirective
      exact ⟨d, (reads_declarations next.2).reports_suffix.subset hd, hcode⟩
    · exact ih (hopens.reads.settled hs) e he hdirective

end Parse

open Parse (keptDirectives declarations_keptDirectives declarations_isNode declarations_tooDeep
  leafEntry_eq_shown settled_initial)

/-! ## Whole texts -/

/-- The directives of a text that declare a citizen. -/
def knownDirectives (source : SourceText) : List Token :=
  (significantTokens source.toList).filter Token.isKnownDirective

namespace Document

variable {source : SourceText} {limit : NestingLimit}

/-- The nodes directly under the document are the declarations and what is stray. -/
theorem childNodes_sourceFile (source : SourceText) (limit : NestingLimit) :
    (parse source limit).sourceFile.childNodes =
      (Parse.declarations ⟨source, limit⟩ (.initial source.toList)).1 :=
  List.filter_eq_self.mpr (declarations_isNode (settled_initial source limit))

/-- What a document drops is dropped by those elements. -/
theorem dropped_sourceFile (source : SourceText) (limit : NestingLimit) :
    (parse source limit).sourceFile.dropped =
      SyntaxTree.droppedOf false (Parse.declarations ⟨source, limit⟩ (.initial source.toList)).1 :=
  rfl

/-- The declarations, each by its first token, are the known directives that are not dropped. -/
theorem heads_declarations (source : SourceText) (limit : NestingLimit) :
    ((parse source limit).sourceFile.childNodes.filter (·.kind.isDeclaration)).map
        (·.leaves.head?) =
      ((knownDirectives source).filter
        (·.shown ∉ (parse source limit).sourceFile.dropped)).map (some ·.shown) := by
  rw [childNodes_sourceFile, declarations_keptDirectives (settled_initial source limit),
    knownDirectives, List.filter_filter, dropped_sourceFile, keptDirectives, Parse.State.initial]
  have hshown : ∀ t ∈ significantTokens source.toList,
      Parse.Reads.leafEntry ⟨source, limit⟩ t = t.shown := fun t ht => leafEntry_eq_shown ht
  rw [List.filter_congr fun t ht => by rw [hshown t ht, Bool.and_comm]]
  exact List.map_congr_left fun t ht => congrArg some (hshown t (List.mem_filter.mp ht).1)

/-- Where no list is reported as nested too deep no known directive is dropped. -/
theorem not_mem_dropped_of_diagnostics
    (h : ∀ d ∈ (parse source limit).diagnostics, d.code ≠ Finding.nestingTooDeep.code) :
    ∀ t ∈ knownDirectives source, t.shown ∉ (parse source limit).sourceFile.dropped := by
  intro t ht hdropped
  have hdirective : t.kind = .directive :=
    of_decide_eq_true (Bool.and_eq_true_iff.mp (List.mem_filter.mp ht).2).1
  obtain ⟨d, hd, hcode⟩ := declarations_tooDeep (settled_initial source limit) t.shown hdropped
    (congrArg SyntaxKind.token hdirective)
  exact h d (mem_diagnostics.mpr (Or.inr (List.mem_reverse.mpr hd))) hcode

/-- The declarations right under the node over the document are opened, one by one and in order, by
the known directives that are not dropped. So there are as many declarations as known directives
exactly if none of these is dropped, and that is so unless a list is nested too deep. -/
theorem declarations_eq_known_directives (source : SourceText) (limit : NestingLimit) :
    ((parse source limit).sourceFile.childNodes.filter (·.kind.isDeclaration)).map
          (·.leaves.head?) =
        ((knownDirectives source).filter
          (·.shown ∉ (parse source limit).sourceFile.dropped)).map (some ·.shown) ∧
      ((parse source limit).declarationCount = (knownDirectives source).length ↔
        ∀ t ∈ knownDirectives source, t.shown ∉ (parse source limit).sourceFile.dropped) ∧
      ((∀ d ∈ (parse source limit).diagnostics, d.code ≠ Finding.nestingTooDeep.code) →
        (parse source limit).declarationCount = (knownDirectives source).length) := by
  have hheads := heads_declarations source limit
  have hcount : (parse source limit).declarationCount = (knownDirectives source).length ↔
      ∀ t ∈ knownDirectives source, t.shown ∉ (parse source limit).sourceFile.dropped := by
    have hlength := congrArg List.length hheads
    rw [List.length_map, List.length_map] at hlength
    rw [declarationCount, hlength, List.length_filter_eq_length_iff]
    simp
  exact ⟨hheads, hcount, fun h => hcount.mpr (not_mem_dropped_of_diagnostics h)⟩

/-- The brackets of a list nested too deep are never closed here, so the second directive is skipped
along with them and opens no declaration. -/
theorem known_directive_without_declaration :
    ¬ ∀ (source : SourceText) (limit : NestingLimit), ∀ t ∈ knownDirectives source,
      ∃ n ∈ (parse source limit).sourceFile.childNodes,
        n.kind.isDeclaration = true ∧ n.leaves.head? = some t.shown := by
  intro h
  have hfails : ¬ ∀ t ∈ knownDirectives (.ofString "@Era E \x7bx: [[\n@Era F \x7b\x7d"),
      ∃ n ∈ (parse (.ofString "@Era E \x7bx: [[\n@Era F \x7b\x7d")
          ⟨1, by decide⟩).sourceFile.childNodes,
        n.kind.isDeclaration = true ∧ n.leaves.head? = some t.shown := by decide +kernel
  exact hfails (h _ _)

end Document

end WorldDoc
