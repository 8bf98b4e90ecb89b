import WorldDoc.Proofs.Parse.Recovery

/-!
# Unknown directives are reported

A directive that declares nothing is reported where it stands. It is not if the declaration before
it was left unfinished right there: then the report that something is lacking stands at the
directive already, and of two reports at one place the second is dropped.
`unknown_directive_reported_iff` says that this is the only exception among the directives that are
not dropped with a list nested too deep.

## Shape of the proof

Wherever the loop over a document looks at the current token, all reports lie before it, or the
element just read is an unfinished declaration, and at a directive its report says what is lacking
(`Headed`). One round of the loop keeps it so (`headed_round`). That the two cases exclude each
other comes from the order of the reports: no two of them stand at one place.
-/

namespace WorldDoc

/-- Whether an element is a declaration that no brace closes. -/
def SyntaxTree.isUnfinished (t : SyntaxTree) : Bool :=
  t.kind.isDeclaration && t.children.getLast?.map kind ≠ some (.token .rbrace)

/-- A declaration whose last element is no closing brace is unfinished. -/
theorem SyntaxTree.isUnfinished_branch {source : SourceText} {kind : CitizenKind} {offset : Nat}
    {elements : List SyntaxTree} {last : SyntaxTree} (hlast : elements.getLast? = some last)
    (h : last.kind ≠ .token .rbrace) :
    (branch source (.node (.declaration kind)) offset elements).isUnfinished = true := by
  show decide (elements.getLast?.map SyntaxTree.kind ≠ some (.token .rbrace)) = true
  rw [hlast]
  simpa using h

namespace Parse

open State
open SyntaxTree (droppedOf)

variable {c : Context} {s s' : State} {ts : List SyntaxTree} {inList : Bool}

/-! ## Reports at a directive -/

/-- A report made within a declaration, if it stands at the directive behind, is about something
lacking. -/
theorem Keeps.lacking_of_start_eq (h : Keeps c inList s ts s') (hs : Settled c s)
    (hbeyond : Beyond c s) (hdirective : s'.kind = .directive) {d : Diagnostic}
    (hd : d ∈ s'.reports) (hstart : d.range.start = (s'.range c).start) :
    Lacking d ∧ d.range = s'.range c := by
  have hs' := h.reads.settled hs
  have hrange : d.range = s'.range c := hs'.range_eq hd hstart
  obtain ⟨u, later, hahead⟩ := exists_ahead_of_kind hdirective (by decide)
  refine ⟨?_, hrange⟩
  rcases h.reports d hd with hd | hlacking | ⟨t, ht, hkind, htrange⟩
  · -- earlier reports lie before the first token of the declaration
    obtain ⟨taken, htaken, -⟩ := h.reads.exists_taken
    have hle : (s.range c).start ≤ (s'.range c).start := by
      by_cases hnil : taken = []
      · rw [range_eq_rangeAt, range_eq_rangeAt, htaken, hnil]
        exact Nat.le_refl _
      · have hlt := start_lt_start (htaken ▸ hs.text) hnil
        rw [← htaken] at hlt
        exact Nat.le_of_lt hlt
    have hlt := hbeyond d hd
    omega
  · exact hlacking
  · -- a token that is no directive stands elsewhere
    have hu : s'.range c = u.1.range := by rw [State.range, hahead]
    have hsame : t = u.1 := by
      refine eq_of_start_eq ht (hs'.text.subset (hahead ▸ List.mem_cons_self)) ?_
      rw [← Token.range_start, ← Token.range_start, ← htrange, hrange, hu]
    exact absurd u.2 (hsame ▸ hkind)

/-! ## The loop over a document -/

/-- All reports lie before the current token, or the element just before is an unfinished
declaration, and where it ends at a directive what it lacks is reported there. -/
def Headed (c : Context) (previous : Option SyntaxTree) (s : State) : Prop :=
  Beyond c s ∨ ∃ p, previous = some p ∧ p.isUnfinished = true ∧
    (s.kind = .directive → ∃ d ∈ s.reports, Lacking d ∧ d.range = s.range c)

/-- A closing brace ends the fields and is none of their elements. -/
theorem kind_ne_rbrace_of_mem_body :
    ∀ element ∈ (body c s).1, element.kind ≠ .token .rbrace := by
  fun_induction body c s with
  | case1 s hends => exact List.forall_mem_nil _
  | case2 s hends hname comma later ih =>
    refine List.forall_mem_cons.mpr ⟨by simp [field, SyntaxTree.branch, SyntaxTree.kind], ?_⟩
    refine List.forall_mem_append.mpr ⟨?_, ih⟩
    intro element helement
    simp only [comma, State.accept] at helement
    split at helement
    · cases helement
    · split at helement
      · rename_i hcomma
        obtain rfl := List.mem_singleton.mp helement
        simp [leafOf, SyntaxTree.leaf, SyntaxTree.kind, hcomma]
      · cases helement
  | case3 s hends hname reported later ih =>
    exact List.forall_mem_cons.mpr ⟨by simp [wrap, SyntaxTree.branch, SyntaxTree.kind], ih⟩

/-- A block comes to an end behind a token it has taken, or it lacks its last brace and a report
stands at the token that is there instead. -/
theorem block_ends (hs : Settled c s) :
    Beyond c (block c s).2 ∨
      (block c s).1 ≠ [] ∧ (∀ element ∈ (block c s).1, element.kind ≠ .token .rbrace) ∧
        ∃ d ∈ (block c s).2.reports, d.range.start = ((block c s).2.range c).start := by
  by_cases hbrace : s.kind = .lbrace
  · obtain ⟨t, later, hahead⟩ := exists_ahead_of_kind hbrace (by decide)
    have hfields := (reads_body (c := c) (s.skip 1)).settled ((Reads.leaves s 1).settled hs)
    simp only [block, expect_of_ahead hahead t.2]
    by_cases hclose : (body c (s.skip 1)).2.kind = .rbrace
    · obtain ⟨u, after, hafter⟩ := exists_ahead_of_kind hclose (by decide)
      rw [expect_of_ahead hafter u.2]
      exact Or.inl (beyond_skip_one hfields (by rw [hclose]; decide))
    · rw [expect_of_kind_ne hclose, Option.toList_none, List.append_nil]
      refine Or.inr ⟨List.cons_ne_nil _ _, List.forall_mem_cons.mpr ⟨?_, ?_⟩, ?_⟩
      · simp [leafOf, SyntaxTree.leaf, SyntaxTree.kind, t.2]
      · exact kind_ne_rbrace_of_mem_body
      · simpa only [State.range, report_ahead] using exists_mem_report _ _ _
  · -- the brace is reported as missing, and tokens up to the next directive may be skipped
    have hreport := (Reads.report (c := c) s .expectedToken
      s!"Expected {TokenKind.lbrace.display}, found {s.kind.display}").settled hs
    simp only [block, expect_of_kind_ne hbrace, skipToDirective, Bool.false_eq_true, if_false,
      List.drop_zero, Nat.zero_add, wrap]
    rcases Nat.eq_zero_or_pos (beforeDirective s.ahead) with hnone | hpos
    · rw [report_ahead, hnone]
      refine Or.inr ⟨List.cons_ne_nil _ _, ?_, ?_⟩
      · simp [SyntaxTree.branch, SyntaxTree.kind]
      · refine (exists_mem_report s _ _).imp fun d hd => ⟨hd.1, ?_⟩
        rw [range_eq_rangeAt, skip_ahead, report_ahead, List.drop_zero]
        exact hd.2
    · refine Or.inl (hreport.beyond_skip ?_ (by rwa [report_ahead]))
      intro hnil
      rw [report_ahead] at hnil
      rw [hnil] at hpos
      exact Nat.lt_irrefl _ hpos

/-- A known directive opens a declaration that is closed, or else unfinished with the report of what
it lacks. -/
theorem headed_declaration (hs : Settled c s) {kind : CitizenKind}
    (hdirective : s.kind = .directive) (hkind : CitizenKind.ofDirective? s.text = some kind) :
    Headed c (some (declaration c s).1) (declaration c s).2 := by
  have hskip : Settled c (s.skip 1) := (Reads.leaves s 1).settled hs
  have hname : Keeps c false (s.skip 1) (declarationName c (s.skip 1)).1
      (declarationName c (s.skip 1)).2 := keeps_declarationName _
  have hnamed := hname.reads.settled hskip
  have hinner := hname.append (keeps_block hnamed)
  rw [declaration, hkind]
  rcases block_ends hnamed with hbeyond | ⟨hne, hbrace, d, hd, hstart⟩
  · exact Or.inl hbeyond
  · refine Or.inr ⟨_, rfl, ?_, fun hbehind => ?_⟩
    · refine SyntaxTree.isUnfinished_branch ?_ (hbrace _ (List.getLast_mem hne))
      rw [List.getLast?_append, List.getLast?_append, List.getLast?_eq_some_getLast hne]
      rfl
    · have hbeyond : Beyond c (s.skip 1) := beyond_skip_one hs (by rw [hdirective]; decide)
      exact ⟨d, hd, hinner.lacking_of_start_eq hskip hbeyond hbehind hd hstart⟩

/-- What is skipped from the current token on lies behind all reports. -/
theorem beyond_skipToDirective (hs : Settled c s) (heof : s.kind ≠ .eof) :
    Beyond c (skipToDirective c true s).2 :=
  hs.beyond_skip (ahead_ne_nil_of_kind heof) (Nat.add_pos_left Nat.one_pos _)

/-- Each round of the loop leaves the state headed by the element it has read. -/
theorem headed_round (hs : Settled c s) (heof : s.kind ≠ .eof) :
    Headed c (some (if s.kind = .directive then declaration c s else strayTokens c s).1)
      (if s.kind = .directive then declaration c s else strayTokens c s).2 := by
  have hskipped (finding : Finding) (message : Option String) (herror : finding.severity = .error) :
      Beyond c (skipToDirective c true (s.report c finding message)).2 := by
    refine beyond_skipToDirective ((Reads.report s finding message herror).settled hs) ?_
    rwa [State.kind, report_ahead]
  by_cases hdirective : s.kind = .directive
  · rw [if_pos hdirective]
    cases hkind : CitizenKind.ofDirective? s.text with
    | some kind => exact headed_declaration hs hdirective hkind
    | none =>
      rw [declaration, hkind]
      exact Or.inl (hskipped _ _ rfl)
  · rw [if_neg hdirective]
    exact Or.inl (hskipped _ _ rfl)

/-- The element that opens with a token stands right behind an unfinished declaration, and something
lacking is reported at that token. -/
def Suppressed (t : Token) (elements : List SyntaxTree) (reports : List Diagnostic) : Prop :=
  (∃ before p e after, elements = before ++ p :: e :: after ∧ p.isUnfinished = true ∧
    e.leaves.head? = some t.shown) ∧ ∃ d ∈ reports, Lacking d ∧ d.range = t.range

/-- An unknown directive at the current token is reported, unless the element before is unfinished
and what it lacks is reported there already. -/
theorem declaration_unknown (hs : Settled c s) {t : Token} {later : List Token}
    (hahead : s.ahead = t :: later) (hkind : t.kind = .directive)
    (hunknown : CitizenKind.ofDirective? t.text = none) {previous : Option SyntaxTree}
    (hheaded : Headed c previous s) :
    (∃ d ∈ (declaration c s).2.reports,
        d.code = Finding.unknownDirective.code ∧ d.range = t.range) ∨
      ∃ p, previous = some p ∧ p.isUnfinished = true ∧
        ∃ d ∈ (declaration c s).2.reports, Lacking d ∧ d.range = t.range := by
  have hrange : s.range c = t.range := by rw [State.range, hahead]
  rcases hheaded with hbeyond | ⟨p, hprevious, hunfinished, hlacking⟩
  · obtain ⟨message, hnext⟩ : ∃ message, declaration c s =
        skipToDirective c true (s.report c .unknownDirective message) := by
      rw [declaration, text_of_ahead hahead, hunknown]
      exact ⟨_, rfl⟩
    refine Or.inl ⟨Finding.unknownDirective.at (s.range c) message, ?_, rfl, hrange⟩
    rw [hnext]
    show _ ∈ (s.report c _ _).reports
    rw [hs.report_reports_of_beyond hbeyond]
    exact List.mem_cons_self
  · obtain ⟨d, hd, hcode, hplace⟩ := hlacking (kind_of_ahead hahead ▸ hkind)
    have hkept : d ∈ (declaration c s).2.reports := (reads_declaration s).reports_suffix.subset hd
    exact Or.inr ⟨p, hprevious, hunfinished, d, hkept, hcode, hplace.trans hrange⟩

/-- An unknown directive is reported by the loop unless an unfinished declaration stands before. -/
theorem declarations_unknown (hs : Settled c s) {t : Token} (ht : t ∈ s.ahead)
    (hkind : t.kind = .directive) (hunknown : CitizenKind.ofDirective? t.text = none)
    (hkept : Reads.leafEntry c t ∉ droppedOf false (declarations c s).1) :
    ∀ previous, Headed c previous s → (∃ d ∈ (declarations c s).2.reports,
        d.code = Finding.unknownDirective.code ∧ d.range = t.range) ∨
      Suppressed t (previous.toList ++ (declarations c s).1) (declarations c s).2.reports := by
  fun_induction declarations c s with
  | case1 s heof =>
    rw [hs.ahead_eq_nil heof] at ht
    cases ht
  | case2 s heof next later ih =>
    intro previous hheaded
    obtain ⟨u, rest, hopens⟩ : ∃ u rest, Opens c s next.1 u rest next.2 := exists_opens hs heof
    have hlater {d : Diagnostic} (hd : d ∈ next.2.reports) : d ∈ later.2.reports :=
      (reads_declarations (c := c) next.2).reports_suffix.subset hd
    rw [droppedOf, Bool.false_and, if_neg Bool.false_ne_true, List.mem_append, not_or] at hkept
    rw [hopens.ahead] at ht
    rcases List.mem_cons.mp ht with rfl | ht
    · -- the directive is the current token
      have hnext : next = declaration c s := dif_pos (kind_of_ahead hopens.ahead ▸ hkind)
      have hround := declaration_unknown hs hopens.ahead hkind hunknown hheaded
      rw [← hnext] at hround
      rcases hround with ⟨d, hd, hfound⟩ | ⟨p, rfl, hunfinished, d, hd, hlacking⟩
      · exact Or.inl ⟨d, hlater hd, hfound⟩
      · have hshown : next.1.leaves.head? = some t.shown := by
          have hmem := hs.text.subset (hopens.ahead ▸ List.mem_cons_self)
          rw [hopens.leaves, ← leafEntry_eq_shown hmem]
          rfl
        exact Or.inr ⟨⟨[], p, next.1, later.1, rfl, hunfinished, hshown⟩, d, hlater hd, hlacking⟩
    · rcases List.mem_append.mp ht with ht | ht
      · -- a directive within the element is dropped
        exact absurd (hopens.directives t ht hkind) hkept.1
      · have hround : Headed c (some next.1) next.2 := headed_round hs heof
        rcases ih (hopens.reads.settled hs) ht hkept.2 _ hround with hreported | ⟨helements, hlacking⟩
        · exact Or.inl hreported
        · obtain ⟨before, p, e, after, hsplit, hunfinished, hhead⟩ := helements
          refine Or.inr ⟨⟨previous.toList ++ before, p, e, after, ?_, hunfinished, hhead⟩, hlacking⟩
          rw [List.append_assoc, ← hsplit]
          rfl

end Parse

namespace Document

variable {source : SourceText} {limit : NestingLimit} {t : Token}

/-- A finding of the parser comes from the parser's reports. -/
theorem mem_reports_of_code {d : Diagnostic} (hd : d ∈ (parse source limit).diagnostics)
    (hcode : d.code = Finding.unknownDirective.code ∨ Parse.Lacking d) :
    d ∈ reports source limit := by
  refine (mem_diagnostics.mp hd).resolve_left fun hlexical => ?_
  rcases code_of_mem_lexicalDiagnostics hlexical with h | h <;>
    simp [Parse.Lacking, h, Finding.unterminatedString, Finding.unexpectedCharacter,
      Finding.unknownDirective, Finding.expectedToken, Finding.expectedValue] at hcode

/-- An unknown directive that is not dropped is reported at its place exactly if it does not stand
behind a declaration that was left unfinished right there and is reported so. -/
theorem unknown_directive_reported_iff (source : SourceText) (limit : NestingLimit) (t : Token)
    (ht : t ∈ significantTokens source.toList) (hkind : t.kind = .directive)
    (hunknown : CitizenKind.ofDirective? t.text = none)
    (hkept : t.shown ∉ (parse source limit).sourceFile.dropped) :
    (∃ d ∈ (parse source limit).diagnostics,
        d.code = Finding.unknownDirective.code ∧ d.range = t.range) ↔
      ¬ Parse.Suppressed t (parse source limit).sourceFile.childNodes
        (parse source limit).diagnostics := by
  have hentry : Parse.Reads.leafEntry ⟨source, limit⟩ t = t.shown := Parse.leafEntry_eq_shown ht
  constructor
  · rintro ⟨d, hd, hcode, hrange⟩ ⟨-, e, he, hlacking, herange⟩
    have hsame : d = e := eq_of_mem_reports (mem_reports_of_code hd (Or.inl hcode))
      (mem_reports_of_code he (Or.inr hlacking)) (hrange.trans herange.symm)
    rw [← hsame, Parse.Lacking, hcode] at hlacking
    exact absurd hlacking (by decide)
  · intro hnot
    have hreported := Parse.declarations_unknown (Parse.settled_initial source limit) ht hkind
      hunknown (hentry ▸ hkept) none (Or.inl (List.forall_mem_nil _))
    rcases hreported with ⟨d, hd, hfound⟩ | ⟨helements, d, hd, hlacking⟩
    · exact ⟨d, mem_diagnostics.mpr (Or.inr (List.mem_reverse.mpr hd)), hfound⟩
    · refine absurd ⟨?_, d, mem_diagnostics.mpr (Or.inr (List.mem_reverse.mpr hd)), hlacking⟩ hnot
      rw [childNodes_sourceFile]
      exact helements

/-- Behind a declaration that is closed an unknown directive is reported. -/
theorem unknown_directive_reported_behind_closed :
    ∃ t ∈ significantTokens "@Era E \x7b\x7d @Bogus F".toList, t.kind = .directive ∧
      CitizenKind.ofDirective? t.text = none ∧
      ∃ d ∈ (parse (.ofString "@Era E \x7b\x7d @Bogus F") .standard).diagnostics,
        d.code = Finding.unknownDirective.code ∧ d.range = t.range := by
  refine ⟨⟨⟨.directive, "@Bogus".toList, none⟩, 10⟩, by decide +kernel, rfl, by decide +kernel, ?_⟩
  refine (unknown_directive_reported_iff _ _ _ (by decide +kernel) rfl (by decide +kernel)
    (by decide +kernel)).mpr ?_
  rintro ⟨-, hlacking⟩
  exact absurd hlacking (by decide +kernel)

/-- The first declaration lacks its braces, which is reported at the directive behind it. That this
directive is unknown is then not reported. -/
theorem unknown_directive_not_reported :
    ¬ ∀ (source : SourceText) (limit : NestingLimit), ∀ t ∈ significantTokens source.toList,
      t.kind = .directive → CitizenKind.ofDirective? t.text = none →
        ∃ d ∈ (parse source limit).diagnostics,
          d.code = Finding.unknownDirective.code ∧ d.range = t.range := by
  intro h
  have hfails := h (.ofString "@Era E @Bogus F \x7b\x7d") .standard
    ⟨⟨.directive, "@Bogus".toList, none⟩, 7⟩ (by decide +kernel) rfl (by decide +kernel)
  exact absurd hfails (by decide +kernel)

end Document

end WorldDoc
