import WorldDoc.Proofs.Lexical.Placement
import WorldDoc.Proofs.Parse.Reconstruction
import WorldDoc.Parse.Document

/-!
# What is accepted

A text has no diagnostic exactly if its tokens have a derivation, and then its tree is the tree of
that derivation. That derivable tokens are read without a report is `sourceFile_tokens`; here it is
shown that nothing else is.

## Shape of the proof

A report may be dropped when another one stands at the same place, so a routine that reports does
not always lengthen the list of reports. But it never leaves that list empty
(`report_reports_ne_nil`), and no report is withdrawn (`Reads.reports_suffix`). Hence from a state
without reports at the end of a routine it follows that nothing was reported on the way, and the
routine went through the branches of the grammar alone. Each `exists_…` theorem below says for one
routine which derivation it has then taken the tokens of.
-/

namespace WorldDoc

namespace Parse

open State

variable {c : Context} {s s' : State} {ts : List SyntaxTree}

/-! ## States without reports -/

/-- After a finding is reported there is a report. -/
theorem report_reports_ne_nil (s : State) (finding : Finding) (message : Option String) :
    (s.report c finding message).reports ≠ [] := by
  unfold State.report record
  split
  · simp
  · rename_i latest earlier hreports
    split
    · rw [hreports]
      simp
    · simp

/-- If there are no reports at the end there were none before. -/
theorem Reads.reports_eq_nil (h : Reads c s ts s') (hclean : s'.reports = []) : s.reports = [] := by
  have hsuffix := h.reports_suffix
  rwa [hclean, List.suffix_nil] at hsuffix

/-- A routine that begins with a report leaves one behind. -/
theorem Reads.reports_ne_nil {finding : Finding} {message : Option String}
    (h : Reads c (s.report c finding message) ts s') : s'.reports ≠ [] :=
  fun hclean => report_reports_ne_nil s finding message (h.reports_eq_nil hclean)

/-- Where the current token is of a kind, there is a token of that kind ahead. -/
theorem exists_ahead_of_kind {kind : TokenKind} (h : s.kind = kind) (heof : kind ≠ .eof) :
    ∃ t : Derivation.Terminal kind, ∃ later, s.ahead = t.1 :: later := by
  cases hahead : s.ahead with
  | nil =>
    rw [State.kind, hahead] at h
    exact absurd h.symm heof
  | cons t later =>
    rw [kind_of_ahead hahead] at h
    exact ⟨⟨t, h⟩, later, rfl⟩

/-- A token that was taken where it was accepted was ahead. -/
theorem exists_of_accept {kind : TokenKind} {leaf : SyntaxTree} {after : State}
    (h : s.accept c kind = (some leaf, after)) :
    ∃ t : Derivation.Terminal kind, s.ahead = t.1 :: after.ahead := by
  cases hahead : s.ahead with
  | nil =>
    rw [State.accept, hahead] at h
    exact absurd (Prod.mk.inj h).1 (by simp)
  | cons t later =>
    by_cases hkind : t.kind = kind
    · rw [accept_of_ahead hahead hkind] at h
      obtain ⟨-, rfl⟩ := Prod.mk.inj h
      exact ⟨⟨t, hkind⟩, by rw [skip_one_ahead hahead]⟩
    · rw [accept_of_kind_ne (kind_of_ahead hahead ▸ hkind)] at h
      exact absurd (Prod.mk.inj h).1 (by simp)

/-- What is taken if it is there was ahead, and what is not there was not. -/
theorem exists_optional_of_accept (s : State) (kind : TokenKind) :
    ∃ t : Option (Derivation.Terminal kind),
      s.ahead = (t.map Subtype.val).toList ++ (s.accept c kind).2.ahead := by
  cases haccept : s.accept c kind with
  | mk leaf after =>
    cases leaf with
    | some leaf =>
      obtain ⟨t, ht⟩ := exists_of_accept haccept
      exact ⟨some t, ht⟩
    | none =>
      have htaken := (Reads.accept (c := c) s kind).exists_taken
      rw [haccept] at htaken
      obtain ⟨taken, hahead, hleaves⟩ := htaken
      obtain rfl : taken = [] := List.map_eq_nil_iff.mp hleaves.symm
      exact ⟨none, hahead⟩

/-- Where an expected token is not reported as missing it was there and has been taken. -/
theorem exists_of_expect {kind : TokenKind} (hclean : (s.expect c kind).2.reports = []) :
    ∃ t : Derivation.Terminal kind, s.ahead = t.1 :: (s.expect c kind).2.ahead ∧
      s.expect c kind = (some (leafOf c t.1), s.skip 1) := by
  cases hahead : s.ahead with
  | nil =>
    rw [State.expect, State.accept, hahead] at hclean
    exact absurd hclean (report_reports_ne_nil s _ _)
  | cons t later =>
    by_cases hkind : t.kind = kind
    · rw [expect_of_ahead hahead hkind]
      exact ⟨⟨t, hkind⟩, by rw [skip_one_ahead hahead], rfl⟩
    · have hne : s.kind ≠ kind := kind_of_ahead hahead ▸ hkind
      rw [State.expect, accept_of_kind_ne hne] at hclean
      exact absurd hclean (report_reports_ne_nil s _ _)

/-! ## Values and lists -/

/-- The routine finds a value nested at most `levels` deep wherever it ends without a report. -/
def TakesValue (levels : Nat) (element : ValueRoutine) : Prop :=
  ∀ s, (element.run s).2.reports = [] → (element.run s).1.isSome ∧
    ∃ v : Derivation.Value, v.nesting ≤ levels ∧ s.ahead = v.tokens ++ (element.run s).2.ahead

/-- Items that are read without a report are items of a list. -/
theorem exists_items {levels : Nat} {element : ValueRoutine} (helement : TakesValue levels element)
    (hreads : ∀ s, Reads c s (element.run s).1.toList (element.run s).2) (s : State)
    (hclean : (items c element s).2.reports = []) :
    ∃ is : Derivation.Items, is.nesting ≤ levels ∧
      s.ahead = is.tokens ++ (items c element s).2.ahead := by
  fun_induction items c element s with
  | case1 s hends => exact ⟨.none, Nat.zero_le _, rfl⟩
  | case2 s hends next hvalue later ih =>
    have hnext : next.reports = [] :=
      ((Reads.wrap next .error 1).append (reads_items hreads (next.skip 1))).reports_eq_nil hclean
    have hsome := (helement s (by rw [hvalue]; exact hnext)).1
    rw [hvalue] at hsome
    exact absurd hsome (by simp)
  | case3 s hends value next hvalue same hcomma =>
    obtain ⟨-, v, hnesting, hahead⟩ := helement s (by rw [hvalue]; exact hclean)
    rw [hvalue] at hahead
    exact ⟨.last v, hnesting, hahead⟩
  | case4 s hends value next hvalue comma after hcomma later ih =>
    have haccept := Reads.accept (c := c) next .comma
    rw [hcomma] at haccept
    have hnext : next.reports = [] :=
      (haccept.append (reads_items hreads after)).reports_eq_nil hclean
    obtain ⟨-, v, hnesting, hahead⟩ := helement s (by rw [hvalue]; exact hnext)
    obtain ⟨t, ht⟩ := exists_of_accept hcomma
    obtain ⟨is, hlater, hafter⟩ := ih hclean
    refine ⟨.more v t is, Nat.max_le.mpr ⟨hnesting, hlater⟩, ?_⟩
    rw [hvalue] at hahead
    rw [hahead, ht, hafter, Derivation.Items.tokens, List.append_assoc]
    rfl

/-- The routine, entered at a bracket, finds a list nested at most `levels` deep wherever it ends
without a report. -/
def TakesList (levels : Nat) (list : ListRoutine) : Prop :=
  ∀ s : State, s.kind = .lbracket → (list.run s).2.reports = [] →
    ∃ v : Derivation.Value, v.nesting ≤ levels ∧ s.ahead = v.tokens ++ (list.run s).2.ahead

/-- A routine that takes lists makes one that takes values. -/
theorem takesValue_valueOf {levels : Nat} {list : ListRoutine} (hlist : TakesList levels list) :
    TakesValue levels (valueOf c list) := by
  intro s hclean
  simp only [valueOf] at hclean ⊢
  split at hclean
  · rename_i hkind
    rw [if_pos hkind]
    exact ⟨rfl, hlist s hkind hclean⟩
  · rename_i hkind
    rw [if_neg hkind]
    split at hclean
    · rename_i kind writes
      obtain ⟨t, later, hahead⟩ := exists_ahead_of_kind (s := s) rfl (by
        intro heof
        rw [heof] at writes
        exact absurd writes (by simp [ValueKind.ofToken?]))
      refine ⟨rfl, .scalar t.1 kind (by rw [t.2, writes]), Nat.zero_le _, ?_⟩
      rw [hahead, skip_one_ahead hahead]
      rfl
    · exact absurd hclean (report_reports_ne_nil s _ _)

/-- A routine that takes values makes one that takes lists around them. -/
theorem takesList_listOf {levels : Nat} {element : ValueRoutine}
    (helement : TakesValue levels element)
    (hreads : ∀ s, Reads c s (element.run s).1.toList (element.run s).2) :
    TakesList (levels + 1) (listOf c element) := by
  intro s hkind hclean
  obtain ⟨opening, later, hopening⟩ := exists_ahead_of_kind hkind (by decide)
  obtain ⟨closing, hclosing, -⟩ := exists_of_expect (s := (items c _ (s.skip 1)).2) hclean
  have hinner := (Reads.expect (c := c) (items c element (s.skip 1)).2 .rbracket).reports_eq_nil
    hclean
  obtain ⟨is, hnesting, hitems⟩ := exists_items helement hreads (s.skip 1) hinner
  refine ⟨.list opening is closing, Nat.succ_le_succ hnesting, ?_⟩
  rw [hopening, ← skip_one_ahead hopening, hitems, hclosing, Derivation.Value.tokens]
  simp only [List.cons_append, List.append_assoc, List.nil_append]
  rfl

/-- Where no level is left a list is always reported, so the tokens taken are those of a list within
the limit. -/
theorem takesList_lists (c : Context) (levels : Nat) : TakesList levels (lists c levels) := by
  induction levels with
  | zero =>
    intro s _ hclean
    exact absurd hclean (Reads.reports_ne_nil (Reads.wrap (reportTooDeep c s) .error _))
  | succ levels ih =>
    exact takesList_listOf (takesValue_valueOf ih) (reads_valueOf (reads_lists levels))

/-- Values are taken as deep as levels are left. -/
theorem takesValue_value (c : Context) (levels : Nat) :
    TakesValue levels (valueOf c (lists c levels)) :=
  takesValue_valueOf (takesList_lists c levels)

/-! ## Fields and declarations -/

/-- A token that can be a name is one. -/
theorem exists_name (h : isNameToken s.kind = true) :
    ∃ n : Derivation.Name, ∃ later, s.ahead = n.1 :: later := by
  cases hkind : s.kind <;> rw [hkind] at h <;> first
    | exact absurd h (by decide)
    | obtain ⟨t, later, hahead⟩ := exists_ahead_of_kind hkind (by decide)
      first
        | exact ⟨⟨t.1, Or.inl t.2⟩, later, hahead⟩
        | exact ⟨⟨t.1, Or.inr t.2⟩, later, hahead⟩

/-- A field that is read without a report is a field. -/
theorem exists_field (hname : isNameToken s.kind = true) (hclean : (field c s).2.reports = []) :
    ∃ f : Derivation.Field, f.value.nesting ≤ c.limit.depth ∧
      s.ahead = f.tokens ++ (field c s).2.ahead := by
  have hexpect : ((s.skip 1).expect c .colon).2.reports = [] := by
    simp only [field] at hclean
    split at hclean
    · exact (reads_value _ _).reports_eq_nil hclean
    · exact hclean
  obtain ⟨key, later, hkey⟩ := exists_name hname
  obtain ⟨colon, hcolon, hread⟩ := exists_of_expect hexpect
  have hfield : (field c s).2 = (value c c.limit.depth ((s.skip 1).skip 1)).2 := by
    simp only [field, wrap, hread]
    rfl
  rw [hfield] at hclean ⊢
  obtain ⟨-, v, hnesting, hvalue⟩ := takesValue_value c c.limit.depth _ hclean
  refine ⟨⟨key, colon, v⟩, hnesting, ?_⟩
  rw [hkey, ← skip_one_ahead hkey, hcolon, hread, hvalue]
  rfl

/-- A body that is read without a report consists of fields. -/
theorem exists_body (s : State) (hclean : (body c s).2.reports = []) :
    ∃ fs : List (Derivation.Field × Option (Derivation.Terminal .comma)),
      (∀ f ∈ fs, f.1.value.nesting ≤ c.limit.depth) ∧
        s.ahead = fs.flatMap Derivation.fieldTokens ++ (body c s).2.ahead := by
  fun_induction body c s with
  | case1 s hends => exact ⟨[], by simp, rfl⟩
  | case2 s hends hname comma later ih =>
    obtain ⟨fs, hnesting, hafter⟩ := ih hclean
    have hcomma := (reads_body comma.2).reports_eq_nil hclean
    obtain ⟨f, hf, hfield⟩ :=
      exists_field hname ((Reads.accept _ .comma).reports_eq_nil hcomma)
    obtain ⟨t, ht⟩ := exists_optional_of_accept (c := c) (field c s).2 .comma
    refine ⟨(f, t) :: fs, ?_, ?_⟩
    · rintro g hg
      rcases List.mem_cons.mp hg with rfl | hg
      · exact hf
      · exact hnesting g hg
    · rw [hfield, ht, List.flatMap_cons, Derivation.fieldTokens, List.append_assoc,
        List.append_assoc]
      exact congrArg (fun ahead => f.tokens ++ ((t.map Subtype.val).toList ++ ahead)) hafter
  | case3 s hends hname reported later ih =>
    exact absurd hclean
      (Reads.reports_ne_nil ((Reads.wrap reported .error 1).append (reads_body (reported.skip 1))))

/-- The fields of a declaration in their braces. -/
theorem exists_block (hclean : (block c s).2.reports = []) :
    ∃ opening : Derivation.Terminal .lbrace, ∃ fs : List (Derivation.Field ×
      Option (Derivation.Terminal .comma)), ∃ closing : Derivation.Terminal .rbrace,
      (∀ f ∈ fs, f.1.value.nesting ≤ c.limit.depth) ∧
        s.ahead = opening.1 :: (fs.flatMap Derivation.fieldTokens ++
          closing.1 :: (block c s).2.ahead) := by
  have hopen : (s.expect c .lbrace).2.reports = [] := by
    unfold block at hclean
    split at hclean
    · rename_i next heq
      rw [heq]
      exact (reads_skipToDirective (c := c) false next).reports_eq_nil hclean
    · rename_i brace next heq
      rw [heq]
      exact (reads_body next).reports_eq_nil
        ((Reads.expect (c := c) (body c next).2 .rbrace).reports_eq_nil hclean)
  obtain ⟨opening, hopening, hread⟩ := exists_of_expect hopen
  have hblock : (block c s).2 = ((body c (s.skip 1)).2.expect c .rbrace).2 := by
    simp only [block, hread]
  rw [hblock] at hclean ⊢
  obtain ⟨closing, hclosing, -⟩ := exists_of_expect hclean
  obtain ⟨fs, hnesting, hfields⟩ :=
    exists_body (s.skip 1) ((Reads.expect (c := c) _ .rbrace).reports_eq_nil hclean)
  refine ⟨opening, fs, closing, hnesting, ?_⟩
  rw [hopening, hread, hfields, hclosing]

/-- A directive that declares a kind of citizen is the one for that kind. -/
theorem directive_of_ofDirective? {text : List Char} {kind : CitizenKind}
    (h : CitizenKind.ofDirective? text = some kind) : text = kind.directive := by
  have hfound := List.find?_some h
  exact (of_decide_eq_true hfound).symm

/-- A declaration that is read without a report is a declaration of the grammar. -/
theorem exists_declaration (hkind : s.kind = .directive)
    (hclean : (declaration c s).2.reports = []) :
    ∃ d : Derivation.Declaration, d.Within c.limit.depth ∧
      s.ahead = d.tokens ++ (declaration c s).2.ahead := by
  cases hdirective : CitizenKind.ofDirective? s.text with
  | none =>
    simp only [declaration, hdirective] at hclean
    exact absurd hclean (Reads.reports_ne_nil (reads_skipToDirective true _))
  | some kind =>
    simp only [declaration, hdirective] at hclean ⊢
    obtain ⟨directive, later, hahead⟩ := exists_ahead_of_kind hkind (by decide)
    have hname := (reads_block (declarationName c (s.skip 1)).2).reports_eq_nil hclean
    obtain ⟨opening, fs, closing, hnesting, hblock⟩ := exists_block hclean
    cases hisName : isNameToken (s.skip 1).kind with
    | false =>
      -- a missing name is reported, and the block behind it withdraws no report
      rw [declarationName, if_neg (by simp [hisName])] at hname
      exact absurd hname (report_reports_ne_nil _ _ _)
    | true =>
      obtain ⟨name, rest, hrest⟩ := exists_name hisName
      have hread := declarationName_name (c := c) name hrest
      have htext : directive.1.text = kind.directive := by
        rw [← directive_of_ofDirective? hdirective, text_of_ahead hahead]
      have htokens : s.ahead = directive.1 :: name.1 :: opening.1 ::
          (fs.flatMap Derivation.fieldTokens ++
            closing.1 :: (block c (declarationName c (s.skip 1)).2).2.ahead) := by
        rw [← hblock, hread, skip_one_ahead hrest, ← hrest, skip_one_ahead hahead, hahead]
      refine ⟨⟨kind, directive, htext, name, opening, fs, closing⟩, hnesting, ?_⟩
      rw [htokens, Derivation.Declaration.tokens]
      simp

/-- Declarations that are read without a report are declarations. -/
theorem exists_declarations (s : State) (hclean : (declarations c s).2.reports = []) :
    ∃ ds : List Derivation.Declaration, (∀ d ∈ ds, d.Within c.limit.depth) ∧
      s.ahead = ds.flatMap Derivation.Declaration.tokens ++ (declarations c s).2.ahead := by
  fun_induction declarations c s with
  | case1 s h => exact ⟨[], by simp, rfl⟩
  | case2 s h next later ih =>
    obtain ⟨ds, hnesting, hafter⟩ := ih hclean
    have hnext : next.2.reports = [] := (reads_declarations next.2).reports_eq_nil hclean
    by_cases hkind : s.kind = .directive
    · have hread : next = declaration c s := dif_pos hkind
      rw [hread] at hnext hafter
      obtain ⟨d, hd, hahead⟩ := exists_declaration hkind hnext
      refine ⟨d :: ds, ?_, ?_⟩
      · rintro e he
        rcases List.mem_cons.mp he with rfl | he
        · exact hd
        · exact hnesting e he
      · rw [hahead, hafter, ← hread, List.flatMap_cons, List.append_assoc]
    · have hread : next = strayTokens c s := dif_neg hkind
      rw [hread] at hnext
      exact absurd hnext (Reads.reports_ne_nil (reads_skipToDirective true _))

/-! ## Documents -/

/-- Where a document is read without a report to the last token, the tokens ahead are derivable. -/
theorem exists_sourceFile (heof : ∀ t ∈ s.ahead, t.kind ≠ .eof)
    (hclean : (sourceFile c s).2.reports = []) :
    ∃ d : Derivation.Document, d.Within c.limit.depth ∧ d.tokens = s.ahead := by
  obtain ⟨ds, hnesting, hahead⟩ := exists_declarations (c := c) s hclean
  have hend : (declarations c s).2.ahead = [] := by
    cases hrest : (declarations c s).2.ahead with
    | nil => rfl
    | cons t later =>
      have hkind : t.kind = .eof := by
        rw [← kind_of_ahead hrest]
        exact sourceFile_kind (c := c) s
      exact absurd hkind (heof t (by rw [hahead, hrest]; simp))
  exact ⟨⟨ds⟩, hnesting, by rw [hahead, hend, List.append_nil]; rfl⟩

end Parse

/-- Nothing is collected exactly if there is nothing in any group. -/
theorem Diagnostic.collect_eq_nil_iff {groups : List (List Diagnostic)} :
    collect groups = [] ↔ ∀ group ∈ groups, group = [] := by
  rw [collect, ← List.length_eq_zero_iff, List.length_mergeSort, List.length_eq_zero_iff,
    List.flatten_eq_nil_iff]

namespace Document

variable {source : SourceText} {limit : NestingLimit}

/-- A text has no diagnostic exactly if neither the lexer nor the parser reported anything. -/
theorem diagnostics_eq_nil_iff : (parse source limit).diagnostics = [] ↔
    lexicalDiagnostics source.toList = [] ∧
      (Parse.sourceFile ⟨source, limit⟩ (.initial source.toList)).2.reports = [] := by
  simp only [parse, Diagnostic.collect_eq_nil_iff, List.forall_mem_cons, List.reverse_eq_nil_iff]
  simp

/-- The tokens of a derivation are read as its tree. -/
theorem sourceFile_of_tokens {d : Derivation.Document} (hnesting : d.Within limit.depth)
    (htokens : d.tokens = significantTokens source.toList) :
    Parse.sourceFile ⟨source, limit⟩ (.initial source.toList) =
      (d.tree source, Parse.State.skip (.initial source.toList) d.tokens.length) :=
  Parse.sourceFile_tokens d hnesting htokens.symm rfl

/-- The tokens of a text without diagnostics have a derivation. -/
theorem exists_derivation (hclean : (parse source limit).diagnostics = []) :
    ∃ d : Derivation.Document,
      d.Within limit.depth ∧ d.tokens = significantTokens source.toList := by
  refine Parse.exists_sourceFile (fun t ht => ?_) (diagnostics_eq_nil_iff.mp hclean).2
  exact kind_ne_eof_of_mem_tokens (List.mem_filter.mp ht).1

/-- Where the lexer reports nothing, derivable tokens leave no diagnostic. -/
theorem diagnostics_eq_nil_of_tokens {d : Derivation.Document} (hnesting : d.Within limit.depth)
    (htokens : d.tokens = significantTokens source.toList)
    (hclean : lexicalDiagnostics source.toList = []) : (parse source limit).diagnostics = [] := by
  refine diagnostics_eq_nil_iff.mpr ⟨hclean, ?_⟩
  rw [sourceFile_of_tokens hnesting htokens]
  rfl

/-- The node over the declarations is the tree of the derivation. -/
theorem sourceFile_eq_tree {d : Derivation.Document} (hnesting : d.Within limit.depth)
    (htokens : d.tokens = significantTokens source.toList) :
    (parse source limit).sourceFile = d.tree source := by
  rw [parse, sourceFile_of_tokens hnesting htokens]

/-- A text has no diagnostic exactly if the lexer reports nothing and its tokens are derivable with
no list nested deeper than the limit. For derivable tokens the root stands over the tree of their
derivation and over nothing else. -/
theorem diagnostics_eq_nil_iff_derivable (source : SourceText) (limit : NestingLimit) :
    ((parse source limit).diagnostics = [] ↔
      lexicalDiagnostics source.toList = [] ∧ ∃ d : Derivation.Document,
        d.Within limit.depth ∧ d.tokens = significantTokens source.toList) ∧
    ∀ d : Derivation.Document, d.Within limit.depth →
      d.tokens = significantTokens source.toList →
        (parse source limit).root = Derivation.nodeOver source .root [d.tree source] := by
  constructor
  · constructor
    · intro hclean
      exact ⟨(diagnostics_eq_nil_iff.mp hclean).1, exists_derivation hclean⟩
    · rintro ⟨hclean, d, hnesting, htokens⟩
      exact diagnostics_eq_nil_of_tokens hnesting htokens hclean
  · intro d hnesting htokens
    rw [root, sourceFile_eq_tree hnesting htokens]
    rfl

/-- A text with nested lists, a trailing comma and a field without a comma behind it. -/
theorem derivable_of_nested_lists :
    ∃ d : Derivation.Document, d.Within 2 ∧
      d.tokens = significantTokens "@Origin a {xs: [1, [b],] y: true,}".toList ∧
        (parse (.ofString "@Origin a {xs: [1, [b],] y: true,}") ⟨2, by decide⟩).root =
          Derivation.nodeOver (.ofString "@Origin a {xs: [1, [b],] y: true,}") .root
            [d.tree (.ofString "@Origin a {xs: [1, [b],] y: true,}")] := by
  obtain ⟨haccepts, htree⟩ := diagnostics_eq_nil_iff_derivable
    (.ofString "@Origin a {xs: [1, [b],] y: true,}") ⟨2, by decide⟩
  obtain ⟨-, d, hnesting, htokens⟩ := haccepts.mp (by decide +kernel)
  exact ⟨d, hnesting, htokens, htree d hnesting htokens⟩

end Document

end WorldDoc
