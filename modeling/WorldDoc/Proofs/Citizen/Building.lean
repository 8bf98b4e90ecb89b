import WorldDoc.Check
import WorldDoc.Proofs.Citizen.Meaning
import WorldDoc.Proofs.Parse.Acceptance

/-!
# Clean texts build

A text without diagnostics has a derivation, its literals are ones that the decoder reads, and so
its citizens can be built: one for each directive, with the word of the directive as its kind and
the text of the token behind it as its name. Whatever fails when such a text is built is a key that
comes twice under the policy that rejects it.
-/

namespace WorldDoc

/-- Tokens that have a value of each kind that they are taken for. -/
def Readable (ts : List Token) : Prop :=
  ∀ t ∈ ts, ∀ kind, ValueKind.ofToken? t.kind = some kind →
    (Value.ofLiteral? kind t.text).isSome

/-- The tokens that stand directly behind a directive. -/
def behindDirectives (ts : List Token) : List Token :=
  ((ts.zip ts.tail).filter fun p => p.1.kind = .directive).map Prod.snd

/-! ## Lists made element by element -/

section MapM

variable {α β γ : Type} {f : α → Option β} {as : List α} {bs : List β}

/-- What is found for every element is found for the list. -/
private theorem exists_mapM (h : ∀ a ∈ as, ∃ b, f a = some b) : ∃ bs, as.mapM f = some bs := by
  induction as with
  | nil => exact ⟨[], rfl⟩
  | cons a as ih =>
    obtain ⟨b, hb⟩ := h a List.mem_cons_self
    obtain ⟨bs, hbs⟩ := ih fun x hx => h x (List.mem_cons_of_mem _ hx)
    exact ⟨b :: bs, by rw [List.mapM_cons, hb, hbs]; rfl⟩

/-- What is found for a list is what is found for its first element and for the others. -/
theorem mapM_cons_eq_some {a : α} (h : (a :: as).mapM f = some bs) :
    ∃ b later, f a = some b ∧ as.mapM f = some later ∧ bs = b :: later := by
  rw [List.mapM_cons] at h
  obtain ⟨b, hb, h⟩ := Option.bind_eq_some_iff.mp h
  obtain ⟨later, hlater, h⟩ := Option.bind_eq_some_iff.mp h
  exact ⟨b, later, hb, hlater, (Option.some.inj h).symm⟩

/-- Something is found for every element, and is among what is found for the list. -/
theorem mem_of_mapM_eq_some (h : as.mapM f = some bs) {a : α} (ha : a ∈ as) :
    ∃ b ∈ bs, f a = some b := by
  induction as generalizing bs with
  | nil => exact absurd ha List.not_mem_nil
  | cons first as ih =>
    obtain ⟨b, later, hb, hlater, rfl⟩ := mapM_cons_eq_some h
    rcases List.mem_cons.mp ha with rfl | ha
    · exact ⟨b, List.mem_cons_self, hb⟩
    · obtain ⟨c, hc, heq⟩ := ih hlater ha
      exact ⟨c, List.mem_cons_of_mem _ hc, heq⟩

/-- All that is found for a list is found for one of its elements. -/
theorem exists_of_mem_of_mapM_eq_some (h : as.mapM f = some bs) {b : β} (hb : b ∈ bs) :
    ∃ a ∈ as, f a = some b := by
  induction as generalizing bs with
  | nil =>
    obtain rfl := Option.some.inj h
    contradiction
  | cons a as ih =>
    obtain ⟨first, later, hfirst, hlater, rfl⟩ := mapM_cons_eq_some h
    rcases List.mem_cons.mp hb with rfl | hb
    · exact ⟨a, List.mem_cons_self, hfirst⟩
    · obtain ⟨a', ha', heq⟩ := ih hlater hb
      exact ⟨a', List.mem_cons_of_mem _ ha', heq⟩

/-- What is found for two lists in a row falls into two parts. -/
theorem mapM_append_eq_some {others : List α} (h : (as ++ others).mapM f = some bs) :
    ∃ first rest, as.mapM f = some first ∧ others.mapM f = some rest ∧ bs = first ++ rest := by
  rw [List.mapM_append] at h
  obtain ⟨first, hfirst, h⟩ := Option.bind_eq_some_iff.mp h
  obtain ⟨rest, hrest, h⟩ := Option.bind_eq_some_iff.mp h
  exact ⟨first, rest, hfirst, hrest, (Option.some.inj h).symm⟩

/-- What is the same of every element and its image is the same of the lists. -/
theorem map_eq_map_of_mapM_eq_some {g : α → γ} {g' : β → γ} (h : as.mapM f = some bs)
    (hsame : ∀ a b, f a = some b → g' b = g a) : bs.map g' = as.map g := by
  induction as generalizing bs with
  | nil =>
    obtain rfl := Option.some.inj h
    rfl
  | cons a as ih =>
    obtain ⟨b, later, hb, hlater, rfl⟩ := mapM_cons_eq_some h
    rw [List.map_cons, List.map_cons, hsame a b hb, ih hlater]

end MapM

namespace Derivation

/-! ## Readable tokens have a meaning -/

mutual

/-- A value of readable tokens writes something. -/
theorem exists_meaning : (v : Value) → Readable v.tokens → ∃ w, v.meaning? = some w
  | .scalar token kind writes, h =>
      Option.isSome_iff_exists.mp (h token (List.mem_singleton.mpr rfl) kind writes)
  | .list opening items closing, h => by
      obtain ⟨ws, hws⟩ := exists_meanings items fun t ht => h t (by simp [Value.tokens, ht])
      exact ⟨.list ws, by rw [Value.meaning?, hws]; rfl⟩

/-- The items of a list of readable tokens all write something. -/
theorem exists_meanings : (is : Items) → Readable is.tokens → ∃ ws, is.meanings? = some ws
  | .none, _ => ⟨[], rfl⟩
  | .last v, h => by
      obtain ⟨w, hw⟩ := exists_meaning v h
      exact ⟨[w], by rw [Items.meanings?, hw]; rfl⟩
  | .more v comma later, h => by
      obtain ⟨w, hw⟩ := exists_meaning v fun t ht => h t (by simp [Items.tokens, ht])
      obtain ⟨ws, hws⟩ := exists_meanings later fun t ht => h t (by simp [Items.tokens, ht])
      exact ⟨w :: ws, by rw [Items.meanings?, hw, hws]; rfl⟩

end

/-- A document of readable tokens declares citizens. -/
theorem exists_citizens {d : Document} (h : Readable d.tokens) :
    ∃ citizens, d.citizens? = some citizens := by
  refine exists_mapM fun e he => ?_
  have hfield (f : Field × Option (Terminal .comma)) (hf : f ∈ e.fields) :
      ∃ entry, Field.pair? f.1 = some entry := by
    have hvalue : Readable (Field.value f.1).tokens := by
      intro t ht
      refine h t (List.mem_flatMap.mpr ⟨e, he, ?_⟩)
      have hmem : t ∈ e.fields.flatMap fieldTokens :=
        List.mem_flatMap.mpr ⟨f, hf, by simp [fieldTokens, Field.tokens, ht]⟩
      simp [Declaration.tokens, hmem]
    obtain ⟨w, hw⟩ := exists_meaning (Field.value f.1) hvalue
    exact ⟨(f.1.key.text, w), by rw [Field.pair?, hw]; rfl⟩
  obtain ⟨entries, hentries⟩ := exists_mapM hfield
  exact ⟨_, by rw [Declaration.citizen?, hentries]; rfl⟩

/-! ## Directives and the names behind them -/

mutual

/-- No directive stands within a value. -/
theorem kind_ne_directive_of_mem_value : (v : Value) → ∀ t ∈ v.tokens, t.kind ≠ .directive
  | .scalar token kind writes, t, ht => by
      obtain rfl := List.mem_singleton.mp ht
      intro hkind
      rw [hkind] at writes
      exact absurd writes (by simp [ValueKind.ofToken?])
  | .list opening items closing, t, ht => by
      simp only [Value.tokens, List.mem_cons, List.mem_append, List.not_mem_nil, or_false] at ht
      rcases ht with rfl | ht | rfl
      · simp [opening.2]
      · exact kind_ne_directive_of_mem_items items t ht
      · simp [closing.2]

/-- No directive stands among the items of a list. -/
theorem kind_ne_directive_of_mem_items : (is : Items) → ∀ t ∈ is.tokens, t.kind ≠ .directive
  | .none, t, ht => absurd ht (by simp [Items.tokens])
  | .last v, t, ht => kind_ne_directive_of_mem_value v t ht
  | .more v comma later, t, ht => by
      simp only [Items.tokens, List.mem_append, List.mem_cons] at ht
      rcases ht with ht | rfl | ht
      · exact kind_ne_directive_of_mem_value v t ht
      · simp [comma.2]
      · exact kind_ne_directive_of_mem_items later t ht

end

/-- A name is no directive. -/
theorem kind_ne_directive_of_name (n : Name) : n.1.kind ≠ .directive := by
  rcases n.2 with h | h <;> simp [h]

/-- No directive stands within a field. -/
theorem kind_ne_directive_of_mem_field {f : Field × Option (Terminal .comma)} :
    ∀ t ∈ fieldTokens f, t.kind ≠ .directive := by
  obtain ⟨f, comma⟩ := f
  intro t ht
  simp only [fieldTokens, Field.tokens, List.cons_append, List.mem_cons, List.mem_append] at ht
  rcases ht with rfl | rfl | ht | ht
  · exact kind_ne_directive_of_name f.key
  · simp [f.colon.2]
  · exact kind_ne_directive_of_mem_value f.value t ht
  · cases comma with
    | none => exact absurd ht (by simp)
    | some comma =>
      obtain rfl := List.mem_singleton.mp ht
      simp [comma.2]

/-- The tokens of a declaration behind its directive and its name. -/
def Declaration.blockTokens (d : Declaration) : List Token :=
  d.opening.1 :: (d.fields.flatMap fieldTokens ++ [d.closing.1])

/-- The only directive among the tokens of a declaration is the first of them. -/
theorem kind_ne_directive_of_mem_block (d : Declaration) :
    ∀ t ∈ d.name.1 :: d.blockTokens, t.kind ≠ .directive := by
  intro t ht
  simp only [Declaration.blockTokens, List.mem_cons, List.mem_append, List.mem_flatMap,
    List.not_mem_nil, or_false] at ht
  rcases ht with rfl | rfl | ⟨f, -, ht⟩ | rfl
  · exact kind_ne_directive_of_name d.name
  · simp [d.opening.2]
  · exact kind_ne_directive_of_mem_field t ht
  · simp [d.closing.2]

/-- The directives of a document are those that open its declarations. -/
theorem filter_directive_document (d : Document) :
    (d.tokens.filter fun t => t.kind = .directive) = d.declarations.map fun e => e.directive.1 := by
  obtain ⟨ds⟩ := d
  induction ds with
  | nil => rfl
  | cons e ds ih =>
    have hblock : (e.name.1 :: e.blockTokens).filter (fun t => t.kind = .directive) = [] :=
      List.filter_eq_nil_iff.mpr fun t ht => by simpa using kind_ne_directive_of_mem_block e t ht
    have htokens : (Document.mk (e :: ds)).tokens =
        e.directive.1 :: (e.name.1 :: e.blockTokens ++ (Document.mk ds).tokens) := rfl
    rw [htokens, List.filter_cons, if_pos (by simp [e.directive.2]), List.filter_append, hblock, ih]
    rfl

/-- Nothing stands behind a token that is no directive. -/
theorem behindDirectives_cons {t : Token} (ht : t.kind ≠ .directive) (ts : List Token) :
    behindDirectives (t :: ts) = behindDirectives ts := by
  cases ts with
  | nil => rfl
  | cons u ts => simp [behindDirectives, ht]

/-- Tokens without a directive have nothing that stands behind one. -/
theorem behindDirectives_append {ts : List Token} (hts : ∀ t ∈ ts, t.kind ≠ .directive)
    (us : List Token) : behindDirectives (ts ++ us) = behindDirectives us := by
  induction ts with
  | nil => rfl
  | cons t ts ih =>
    rw [List.cons_append, behindDirectives_cons (hts t List.mem_cons_self),
      ih fun u hu => hts u (List.mem_cons_of_mem _ hu)]

/-- What stands behind the directives of a document are the names of its declarations. -/
theorem behindDirectives_document (d : Document) :
    behindDirectives d.tokens = d.declarations.map fun e => e.name.1 := by
  obtain ⟨ds⟩ := d
  induction ds with
  | nil => rfl
  | cons e ds ih =>
    have hblock :=
      behindDirectives_append (kind_ne_directive_of_mem_block e) (Document.mk ds).tokens
    have hhead : behindDirectives (e.directive.1 :: (e.name.1 :: e.blockTokens ++
        (Document.mk ds).tokens)) = e.name.1 :: behindDirectives (e.name.1 :: e.blockTokens ++
        (Document.mk ds).tokens) := by
      simp [behindDirectives, e.directive.2]
    show behindDirectives (e.directive.1 :: (e.name.1 :: e.blockTokens ++
      (Document.mk ds).tokens)) = _
    rw [hhead, hblock, ih]
    rfl

/-! ## Kinds and names of citizens -/

/-- The citizens of a document have the kinds and the names of its declarations. -/
theorem kind_and_name_of_citizens {d : Document} {citizens : List Citizen}
    (h : d.citizens? = some citizens) :
    (citizens.map fun c => (c.kind, c.name)) =
      d.declarations.map fun e => (e.kind, e.name.text) := by
  refine map_eq_map_of_mapM_eq_some h fun e citizen hcitizen => ?_
  obtain ⟨entries, -, rfl⟩ := Option.map_eq_some_iff.mp hcitizen
  rfl

end Derivation

namespace Document

variable {source : SourceText} {limit : NestingLimit}

/-- The tokens of a text without diagnostics are legible, and whatever derives them has a
meaning. -/
theorem exists_citizens_of_tokens (hclean : (parse source limit).diagnostics = [])
    {d : Derivation.Document} (htokens : d.tokens = significantTokens source.toList) :
    Legible source d.tokens ∧ ∃ citizens, d.citizens? = some citizens := by
  have hlexical := (diagnostics_eq_nil_iff.mp hclean).1
  have hmem (t : Token) (ht : t ∈ d.tokens) : t ∈ WorldDoc.tokens source.toList := by
    rw [htokens] at ht
    exact (List.mem_filter.mp ht).1
  have hreadable : Readable d.tokens := fun t ht kind hkind =>
    isSome_ofLiteral?_of_mem_tokens (hmem t ht)
      (fault_eq_none_of_mem_tokens (hmem t ht) hlexical) hkind
  exact ⟨fun t ht => slice_range_of_mem_tokens (hmem t ht), Derivation.exists_citizens hreadable⟩

/-- What a text without diagnostics declares. -/
theorem exists_citizens (hclean : (parse source limit).diagnostics = []) :
    ∃ d : Derivation.Document, ∃ citizens : List Citizen,
      d.tokens = significantTokens source.toList ∧ Legible source d.tokens ∧
        (parse source limit).sourceFile = d.tree source ∧ d.citizens? = some citizens := by
  obtain ⟨d, hnesting, htokens⟩ := exists_derivation hclean
  obtain ⟨hlegible, citizens, hcitizens⟩ := exists_citizens_of_tokens hclean htokens
  exact ⟨d, citizens, htokens, hlegible, sourceFile_eq_tree hnesting htokens, hcitizens⟩

/-- A directive is seen by the parser. -/
theorem filter_directive_significantTokens (text : List Char) :
    ((significantTokens text).filter fun t => t.kind = .directive) =
      (WorldDoc.tokens text).filter fun t => t.kind = .directive := by
  rw [significantTokens, List.filter_filter]
  refine List.filter_congr fun t _ => ?_
  by_cases h : t.kind = .directive
  · simp [h, Token.isSignificant, TokenKind.isTrivia]
  · simp [h]

/-- What the citizens of a text are called and of which kinds they are. -/
theorem kinds_and_names {d : Derivation.Document} {citizens : List Citizen}
    (htokens : d.tokens = significantTokens source.toList) (hlegible : Legible source d.tokens)
    (hcitizens : d.citizens? = some citizens) :
    (citizens.map fun c => c.kind.word) =
        ((WorldDoc.tokens source.toList).filter fun t => t.kind = .directive).map
          (fun t => String.ofList (t.text.drop 1)) ∧
      (citizens.map fun c => c.name) =
        (behindDirectives (significantTokens source.toList)).map fun t => source.slice t.range := by
  have hboth := Derivation.kind_and_name_of_citizens hcitizens
  have hkinds := congrArg (List.map fun p => p.1.word) hboth
  have hnames := congrArg (List.map Prod.snd) hboth
  simp only [List.map_map, Function.comp_def] at hkinds hnames
  constructor
  · rw [hkinds, ← filter_directive_significantTokens, ← htokens,
      Derivation.filter_directive_document, List.map_map]
    refine List.map_congr_left fun e _ => ?_
    show e.kind.word = String.ofList (e.directive.1.text.drop 1)
    rw [e.text_directive]
    exact String.ofList_toList.symm
  · rw [hnames, ← htokens, Derivation.behindDirectives_document, List.map_map]
    refine List.map_congr_left fun e he => ?_
    have hmem : e.name.1 ∈ d.tokens :=
      List.mem_flatMap.mpr ⟨e, he, by simp [Derivation.Declaration.tokens]⟩
    exact (hlegible _ hmem).symm

/-- Building the citizens of a text without diagnostics, from the tree with its root or without. -/
theorem exists_builds (hclean : (parse source limit).diagnostics = []) {root : Outline}
    (hroot : root = (parse source limit).root.outline ∨
      root = (parse source limit).sourceFile.outline) :
    ∃ citizens : List Citizen,
      (∀ policy, Builds policy (Citizen.allOfOutline policy root) citizens) ∧
        (citizens.map fun c => c.kind.word) =
          ((WorldDoc.tokens source.toList).filter fun t => t.kind = .directive).map
            (fun t => String.ofList (t.text.drop 1)) ∧
        (citizens.map fun c => c.name) =
          (behindDirectives (significantTokens source.toList)).map
            (fun t => source.slice t.range) := by
  obtain ⟨d, citizens, htokens, hlegible, htree, hcitizens⟩ := exists_citizens hclean
  obtain ⟨hkinds, hnames⟩ := kinds_and_names htokens hlegible hcitizens
  refine ⟨citizens, fun policy => Derivation.builds_document hlegible hcitizens ?_, hkinds, hnames⟩
  rw [Document.root, htree] at hroot
  exact hroot

/-- A document without diagnostics has the outline of its tree. -/
theorem outline_of_diagnostics_eq_nil {d : Document} (h : d.diagnostics = []) :
    d.outline = .ok d.sourceFile.outline := by
  rw [outline, h]
  rfl

/-- A text without diagnostics is built from its tree. -/
theorem outcome_citizensBy (policy : DuplicatePolicy)
    (hclean : (parse source limit).diagnostics = []) :
    (citizensBy (.standard limit) policy source).outcome =
      (Citizen.allOfOutline policy (parse source limit).sourceFile.outline).outcome := by
  rw [citizensBy, Traced.outcome_bind]
  simp only [Grammar.standard, outline_of_diagnostics_eq_nil hclean]
  rfl

/-- Under the policy that overwrites, a text without diagnostics is loaded. -/
theorem exists_outcome_of_overwrite (hclean : (parse source limit).diagnostics = []) :
    ∃ citizens, (citizensBy (.standard limit) .overwrite source).outcome = .ok citizens := by
  obtain ⟨citizens, hbuilds, -⟩ := exists_builds hclean (Or.inr rfl)
  refine ⟨citizens, ?_⟩
  rw [outcome_citizensBy .overwrite hclean]
  exact (hbuilds .overwrite).outcome_of_overwrite

/-- Nothing is built from a text with diagnostics. The failure carries all of them. -/
theorem exists_syntaxErrors (policy : DuplicatePolicy) (hne : (parse source limit).diagnostics ≠ []) :
    ∃ errors, (citizensBy (.standard limit) policy source).outcome = .error (.syntaxErrors errors) ∧
      errors.diagnostics = (parse source limit).diagnostics := by
  cases hdiagnostics : (parse source limit).diagnostics with
  | nil => exact absurd hdiagnostics hne
  | cons first others =>
    rw [citizensBy, Traced.outcome_bind]
    simp only [Grammar.standard, outline, hdiagnostics, SyntaxErrors.ofDiagnostics?]
    exact ⟨_, rfl, rfl⟩

/-- Building by the usual grammar fails with syntax errors only, if no key is rejected. -/
theorem eq_syntaxErrors_of_error {failure : Failure}
    (h : (citizensBy (.standard limit) .overwrite source).outcome = .error failure) :
    ∃ errors, failure = .syntaxErrors errors := by
  by_cases hclean : (parse source limit).diagnostics = []
  · obtain ⟨citizens, hok⟩ := exists_outcome_of_overwrite hclean
    rw [hok] at h
    contradiction
  · obtain ⟨errors, herrors, -⟩ := exists_syntaxErrors .overwrite hclean
    exact ⟨errors, Except.error.inj (h.symm.trans herrors)⟩

/-- The citizens of a text without diagnostics can be built, from the tree with its root or
without, unless the policy rejects a key that comes twice. There is one for each directive, in
order, with the word of the directive as its kind and the text of the token behind it as its name.
Loading a text under the policy that overwrites fails with syntax errors only. -/
theorem builds_of_diagnostics_eq_nil (source : SourceText) (limit : NestingLimit)
    (settings : Settings) :
    ((parse source limit).diagnostics = [] → ∀ root : Outline,
      root = (parse source limit).root.outline ∨ root = (parse source limit).sourceFile.outline →
        (∃ citizens, (Citizen.allOfOutline .overwrite root).outcome = .ok citizens) ∧
        (∀ policy failure, (Citizen.allOfOutline policy root).outcome = .error failure →
          policy = .reject ∧ ∃ declaration key range,
            failure = .duplicateField declaration key range) ∧
        ∀ policy citizens, (Citizen.allOfOutline policy root).outcome = .ok citizens →
          (citizens.map fun c => c.kind.word) =
              ((WorldDoc.tokens source.toList).filter fun t => t.kind = .directive).map
                (fun t => String.ofList (t.text.drop 1)) ∧
            (citizens.map fun c => c.name) =
              (behindDirectives (significantTokens source.toList)).map
                fun t => source.slice t.range) ∧
    ∃ building,
      loadCitizens { settings with grammar := none, duplicateFields := .overwrite } source =
        .ok building ∧
      ∀ failure, building.outcome = .error failure → ∃ errors, failure = .syntaxErrors errors := by
  constructor
  · intro hclean root hroot
    obtain ⟨citizens, hbuilds, hkinds, hnames⟩ := exists_builds hclean hroot
    refine ⟨⟨citizens, (hbuilds .overwrite).outcome_of_overwrite⟩, ?_, ?_⟩
    · intro policy failure hfailure
      exact (hbuilds policy).eq_duplicateField_of_error hfailure
    · intro policy built hbuilt
      obtain rfl := (hbuilds policy).eq_of_ok hbuilt
      exact ⟨hkinds, hnames⟩
  · exact ⟨citizensBy (.standard (settings.limit.getD .standard)) .overwrite source, rfl,
      fun failure hfailure => eq_syntaxErrors_of_error hfailure⟩

/-- A key comes twice here, and the citizens are built all the same if the later value counts. -/
theorem builds_with_key_twice :
    ∃ citizens, (Citizen.allOfOutline .overwrite (parse
        (.ofString "@Origin o {a: 1, a: x} @Event e {b: [true]}") .standard).root.outline).outcome =
      .ok citizens ∧ (citizens.map fun c => c.kind.word) = ["Origin", "Event"] := by
  obtain ⟨hbuild, -⟩ := builds_of_diagnostics_eq_nil
    (.ofString "@Origin o {a: 1, a: x} @Event e {b: [true]}") .standard {}
  obtain ⟨⟨citizens, hok⟩, -, hall⟩ := hbuild (by decide +kernel) _ (Or.inl rfl)
  refine ⟨citizens, hok, (hall .overwrite citizens hok).1.trans ?_⟩
  decide +kernel

end Document

end WorldDoc
