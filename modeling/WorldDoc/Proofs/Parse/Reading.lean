import WorldDoc.Parse.Grammar

/-!
# What a routine can do

The grammar routines differ in what they read where, but all of them are put together from the same
few actions: taking the current token as a leaf, reporting at the current token, and closing a node
over what was read since it was opened. `Reads` is the relation that these actions generate, and
every routine stays within it (`reads_value`, `reads_list`, `reads_field`, `reads_declaration`,
`reads_sourceFile`). What holds of the actions therefore holds of every routine at every state,
however malformed the text is:

* the tokens taken are a beginning of the tokens ahead, and they are the leaves of what was read,
  each once and in order (`Reads.exists_taken`);
* no report is withdrawn (`Reads.reports_suffix`);
* all that is reported are errors (`Reads.errors`).
-/

namespace WorldDoc.Parse

open State

variable {c : Context} {s s' s'' : State} {ts us : List SyntaxTree}

namespace State

/-- Taking tokens in two goes is taking all of them at once. -/
theorem skip_skip (s : State) (m n : Nat) : (s.skip m).skip n = s.skip (m + n) := by
  have htake : s.ahead.take (m + n) = s.ahead.take m ++ (s.ahead.drop m).take n := List.take_add
  simp only [skip, List.drop_drop, htake, List.getLast?_append]
  cases ((s.ahead.drop m).take n).getLast? <;> rfl

/-- Some leaves and more behind them are the leaves of so many tokens. -/
theorem leaves_add (s : State) (c : Context) (m n : Nat) :
    s.leaves c (m + n) = s.leaves c m ++ (s.skip m).leaves c n := by
  simp only [leaves, List.take_add, List.map_append, skip_ahead]

/-- A report comes in front of the reports so far, or there is no new one. -/
theorem record_reports (s : State) (d : Diagnostic) :
    (s.record d).reports = s.reports ∨ (s.record d).reports = d :: s.reports := by
  unfold record
  split
  · rename_i hnil
    exact Or.inr (by rw [hnil])
  · split
    · exact Or.inl rfl
    · exact Or.inr rfl

end State

/-- `Reads c s ts s'`: from the state `s` the elements `ts` are read, and `s'` is the state after
them. -/
inductive Reads (c : Context) : State → List SyntaxTree → State → Prop where
  | nothing (s : State) : Reads c s [] s
  | token {s : State} {t : Token} {later : List Token} (h : s.ahead = t :: later) :
      Reads c s [leafOf c t] (s.skip 1)
  | report (s : State) (finding : Finding) (message : Option String)
      (herror : finding.severity = .error := by rfl) :
      Reads c s [] (s.report c finding message)
  | node {s s' : State} {ts : List SyntaxTree} (kind : NodeKind) (h : Reads c s ts s') :
      Reads c s [.branch c.source (.node kind) s.offset ts] s'
  | append {s s' s'' : State} {ts us : List SyntaxTree} (earlier : Reads c s ts s')
      (later : Reads c s' us s'') : Reads c s (ts ++ us) s''

namespace Reads

/-! ## What holds of all that is read -/

/-- What a leaf shows of its token. -/
def leafEntry (c : Context) (t : Token) : SyntaxKind × TextRange × String :=
  (.token t.kind, t.range, c.source.slice t.range)

/-- The tokens that were taken are the leaves of what was read, each once and in order. -/
theorem exists_taken (h : Reads c s ts s') :
    ∃ taken, s.ahead = taken ++ s'.ahead ∧ SyntaxTree.leavesOf ts = taken.map (leafEntry c) := by
  induction h with
  | nothing s => exact ⟨[], rfl, rfl⟩
  | token h => exact ⟨[_], by rw [skip_ahead, h]; rfl, rfl⟩
  | report s finding message => exact ⟨[], by rw [report_ahead]; rfl, rfl⟩
  | node kind h ih =>
    obtain ⟨taken, hahead, hleaves⟩ := ih
    exact ⟨taken, hahead, by rw [SyntaxTree.leavesOf_branch, hleaves]⟩
  | append earlier later ih₁ ih₂ =>
    obtain ⟨taken₁, hahead₁, hleaves₁⟩ := ih₁
    obtain ⟨taken₂, hahead₂, hleaves₂⟩ := ih₂
    refine ⟨taken₁ ++ taken₂, by rw [hahead₁, hahead₂, List.append_assoc], ?_⟩
    rw [SyntaxTree.leavesOf_append, hleaves₁, hleaves₂, List.map_append]

/-- What is ahead afterwards was ahead before. -/
theorem ahead_suffix (h : Reads c s ts s') : s'.ahead <:+ s.ahead := by
  obtain ⟨taken, hahead, -⟩ := h.exists_taken
  exact ⟨taken, hahead.symm⟩

/-- Where nothing was read the same tokens are ahead. -/
theorem ahead_eq (h : Reads c s [] s') : s'.ahead = s.ahead := by
  obtain ⟨taken, hahead, hleaves⟩ := h.exists_taken
  obtain rfl : taken = [] := List.map_eq_nil_iff.mp hleaves.symm
  exact hahead.symm

/-- Reports are only ever added. -/
theorem reports_suffix (h : Reads c s ts s') : s.reports <:+ s'.reports := by
  induction h with
  | nothing s => exact List.suffix_rfl
  | token h => exact List.suffix_rfl
  | report s finding message =>
    rcases record_reports s (finding.at (s.range c) message) with h | h
    · exact h ▸ List.suffix_rfl
    · exact h ▸ List.suffix_cons _ _
  | node kind h ih => exact ih
  | append earlier later ih₁ ih₂ => exact ih₁.trans ih₂

/-- Nothing less than an error is reported. -/
theorem errors (h : Reads c s ts s') (hs : ∀ d ∈ s.reports, d.severity = .error) :
    ∀ d ∈ s'.reports, d.severity = .error := by
  induction h with
  | nothing s => exact hs
  | token h => exact hs
  | report s finding message herror =>
    intro d hd
    rcases record_reports s (finding.at (s.range c) message) with h | h
    · exact hs d (h ▸ hd)
    · rcases List.mem_cons.mp (h ▸ hd : d ∈ _ :: s.reports) with rfl | hd
      · exact herror
      · exact hs d hd
  | node kind h ih => exact ih hs
  | append earlier later ih₁ ih₂ => exact ih₂ (ih₁ hs)

/-! ## The steps of the routines -/

/-- The next tokens can be read as leaves. -/
theorem leaves (s : State) (n : Nat) : Reads c s (s.leaves c n) (s.skip n) := by
  induction n generalizing s with
  | zero => exact nothing s
  | succ n ih =>
    rw [Nat.add_comm n 1, leaves_add, ← skip_skip]
    refine append ?_ (ih _)
    cases h : s.ahead with
    | nil =>
      obtain ⟨ahead, offset, reports⟩ := s
      obtain rfl : ahead = [] := h
      exact nothing _
    | cons t later =>
      rw [State.leaves, h]
      exact token h

/-- Wrapping the next tokens in a node reads that node. -/
theorem wrap (s : State) (kind : NodeKind) (n : Nat) :
    Reads c s [(s.wrap c kind n).1] (s.wrap c kind n).2 :=
  node kind (leaves s n)

/-- Accepting a token reads it, or nothing where another one stands. -/
theorem accept (s : State) (kind : TokenKind) :
    Reads c s (s.accept c kind).1.toList (s.accept c kind).2 := by
  unfold State.accept
  split
  · exact nothing s
  · rename_i h
    split
    · exact token h
    · exact nothing s

/-- Expecting a token reads it, or nothing but for a report. -/
theorem expect (s : State) (kind : TokenKind) :
    Reads c s (s.expect c kind).1.toList (s.expect c kind).2 := by
  have h := accept (c := c) s kind
  unfold State.expect
  split
  · rename_i leaf next heq
    rwa [heq] at h
  · rename_i same heq
    rw [heq] at h
    exact append h (report same _ _)

/-- What is read after a report is read without it as well. -/
theorem of_report {finding : Finding} {message : Option String}
    (h : Reads c (s.report c finding message) ts s')
    (herror : finding.severity = .error := by rfl) : Reads c s ts s' :=
  append (report s finding message herror) h

end Reads

/-! ## The routines -/

/-- Skipping to the next directive reads one element over what was skipped. -/
theorem reads_skipToDirective (current : Bool) (s : State) :
    Reads c s [(skipToDirective c current s).1] (skipToDirective c current s).2 :=
  Reads.wrap s .error _

/-- The routine for a list nested too deep reads one element. -/
theorem reads_tooDeep (s : State) :
    Reads c s [((tooDeep c).run s).1] ((tooDeep c).run s).2 :=
  Reads.of_report (Reads.wrap (reportTooDeep c s) .error _)

/-- A value is read if the routine for lists reads one. -/
theorem reads_valueOf {list : ListRoutine}
    (hlist : ∀ s, Reads c s [(list.run s).1] (list.run s).2) (s : State) :
    Reads c s ((valueOf c list).run s).1.toList ((valueOf c list).run s).2 := by
  simp only [valueOf]
  split
  · exact hlist s
  · split
    · exact Reads.wrap s _ 1
    · exact Reads.report s _ _

/-- The items of a list are read if each value is. -/
theorem reads_items {element : ValueRoutine}
    (helement : ∀ s, Reads c s (element.run s).1.toList (element.run s).2) (s : State) :
    Reads c s (items c element s).1 (items c element s).2 := by
  fun_induction items c element s with
  | case1 s h => exact Reads.nothing s
  | case2 s h next heq later ih =>
    have hnone := helement s
    rw [heq] at hnone
    exact hnone.append ((Reads.wrap next .error 1).append ih)
  | case3 s h value next heq after hcomma =>
    have hvalue := helement s
    rwa [heq] at hvalue
  | case4 s h value next heq comma after hcomma later ih =>
    have hvalue := helement s
    rw [heq] at hvalue
    have haccept := Reads.accept (c := c) next .comma
    rw [hcomma] at haccept
    exact hvalue.append (haccept.append ih)

/-- A list is read, from bracket to bracket, if each value in it is. -/
theorem reads_listOf {element : ValueRoutine}
    (helement : ∀ s, Reads c s (element.run s).1.toList (element.run s).2) (s : State) :
    Reads c s [((listOf c element).run s).1] ((listOf c element).run s).2 :=
  Reads.node _ ((Reads.leaves s 1).append
    ((reads_items helement (s.skip 1)).append (Reads.expect _ .rbracket)))

/-- The routine for lists reads one element, however many levels are left. -/
theorem reads_lists (levels : Nat) (s : State) :
    Reads c s [((lists c levels).run s).1] ((lists c levels).run s).2 := by
  induction levels generalizing s with
  | zero => exact reads_tooDeep s
  | succ levels ih => exact reads_listOf (reads_valueOf ih) s

/-- A list is read, of so many levels. -/
theorem reads_list (levels : Nat) (s : State) :
    Reads c s [(list c levels s).1] (list c levels s).2 :=
  reads_lists levels s

/-- A value is read, whatever it is, or nothing where none starts. -/
theorem reads_value (levels : Nat) (s : State) :
    Reads c s (value c levels s).1.toList (value c levels s).2 :=
  reads_valueOf (reads_lists levels) s

/-- The elements of a field: its key, the colon and the value as far as they are there. -/
theorem reads_fieldElements (s : State) :
    let colon := (s.skip 1).expect c .colon
    let content := if colon.1.isSome then value c c.limit.depth colon.2 else (none, colon.2)
    Reads c s ((s.wrap c .fieldKey 1).1 :: (colon.1.toList ++ content.1.toList)) content.2 := by
  have hcontent (next : State) (found : Bool) :
      Reads c next (if found then value c c.limit.depth next else (none, next)).1.toList
        (if found then value c c.limit.depth next else (none, next)).2 := by
    cases found with
    | false => exact Reads.nothing next
    | true => exact reads_value c.limit.depth next
  exact (Reads.wrap s .fieldKey 1).append
    ((Reads.expect (s.skip 1) .colon).append (hcontent _ _))

/-- A field is read as one element. -/
theorem reads_field (s : State) : Reads c s [(field c s).1] (field c s).2 :=
  Reads.node .field (reads_fieldElements s)

/-- The fields of a body are read, one after the other. -/
theorem reads_body (s : State) : Reads c s (body c s).1 (body c s).2 := by
  fun_induction body c s with
  | case1 s h => exact Reads.nothing s
  | case2 s h hname comma later ih =>
    exact (reads_field s).append ((Reads.accept _ .comma).append ih)
  | case3 s h hname reported later ih =>
    exact Reads.of_report ((Reads.wrap reported .error 1).append ih)

/-- The name of a declaration is read as far as it is there. -/
theorem reads_declarationName (s : State) :
    Reads c s (declarationName c s).1 (declarationName c s).2 := by
  unfold declarationName
  split
  · exact Reads.wrap s .name 1
  · exact Reads.report s _ _

/-- The block of a declaration is read as far as it is there. -/
theorem reads_block (s : State) : Reads c s (block c s).1 (block c s).2 := by
  have hopen := Reads.expect (c := c) s .lbrace
  unfold block
  split
  · rename_i next heq
    rw [heq] at hopen
    exact hopen.append (reads_skipToDirective false next)
  · rename_i brace next heq
    rw [heq] at hopen
    exact hopen.append ((reads_body next).append (Reads.expect _ .rbrace))

/-- A declaration is read as one element. -/
theorem reads_declaration (s : State) :
    Reads c s [(declaration c s).1] (declaration c s).2 := by
  unfold declaration
  split
  · exact Reads.of_report (reads_skipToDirective true _)
  · exact Reads.node _ ((Reads.leaves s 1).append
      ((reads_declarationName (s.skip 1)).append (reads_block _)))

/-- Stray tokens between declarations are read as one element. -/
theorem reads_strayTokens (s : State) :
    Reads c s [(strayTokens c s).1] (strayTokens c s).2 :=
  Reads.of_report (reads_skipToDirective true _)

/-- The declarations are read, with the stray tokens between them. -/
theorem reads_declarations (s : State) :
    Reads c s (declarations c s).1 (declarations c s).2 := by
  fun_induction declarations c s with
  | case1 s h => exact Reads.nothing s
  | case2 s h next later ih =>
    have hnext : Reads c s [next.1] next.2 := by
      simp only [next]
      split
      · exact reads_declaration s
      · exact reads_strayTokens s
    exact hnext.append ih

/-- A whole document is read as one element. -/
theorem reads_sourceFile (s : State) : Reads c s [(sourceFile c s).1] (sourceFile c s).2 :=
  Reads.node .sourceFile (reads_declarations s)

/-- Reading a whole document goes on to the end of the file. -/
theorem sourceFile_kind (s : State) : (sourceFile c s).2.kind = .eof := by
  change (declarations c s).2.kind = .eof
  fun_induction declarations c s with
  | case1 s h => exact h
  | case2 s h next later ih => exact ih

end WorldDoc.Parse
