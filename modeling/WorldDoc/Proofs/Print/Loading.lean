import WorldDoc.Proofs.Citizen.Building
import WorldDoc.Proofs.Print.Draft

/-!
# Printing and loading

A draft that is printed, with whatever layout, and loaded again declares the citizens that it was
made for (`load_print`).

## Shape of the proof

The tokens of the printed text are the lexemes of the draft, in some place or other. Tokens that
are the lexemes of a value, a field, a declaration have a derivation that means this value, this
field, this declaration, and that nests lists as deep as the draft does; the `exists_…` theorems
say so, one for each part of a draft. What remains is put together from what is known of
derivations: the text has no diagnostics, its tree is the tree of the derivation, and the citizens
built from that tree are those that the derivation declares.
-/

namespace WorldDoc.Draft

open WorldDoc.Derivation (Terminal Name fieldTokens)

/-! ## Tokens that are the lexemes of a draft -/

section Tokens

variable {ts : List Token} {ls : List Lexeme}

/-- A token with a given lexeme is a terminal of its kind with its text. -/
theorem exists_terminal {kind : TokenKind} {text : List Char}
    (h : ts.map Token.toLexeme = ⟨kind, text, none⟩ :: ls) :
    ∃ t : Terminal kind, ∃ later, ts = t.1 :: later ∧ t.1.text = text ∧
      later.map Token.toLexeme = ls := by
  obtain ⟨t, later, rfl, hlexeme, hlater⟩ := List.map_eq_cons_iff.mp h
  exact ⟨⟨t, congrArg Lexeme.kind hlexeme⟩, later, rfl, congrArg Lexeme.text hlexeme, hlater⟩

/-- A token with the lexeme of a word is a name with its text. -/
theorem exists_name (w : Word) (h : ts.map Token.toLexeme = w.lexeme :: ls) :
    ∃ n : Name, ∃ later, ts = n.1 :: later ∧ n.text = String.ofList w.text ∧
      later.map Token.toLexeme = ls := by
  cases w with
  | identifier i =>
    obtain ⟨t, later, rfl, htext, hlater⟩ := exists_terminal h
    exact ⟨⟨t.1, Or.inl t.2⟩, later, rfl, congrArg String.ofList htext, hlater⟩
  | string l =>
    obtain ⟨t, later, rfl, htext, hlater⟩ := exists_terminal h
    exact ⟨⟨t.1, Or.inr t.2⟩, later, rfl, congrArg String.ofList htext, hlater⟩

/-- A single token is a derivation of the value that its text writes. -/
theorem exists_scalar {kind : TokenKind} {text : List Char} {valueKind : ValueKind}
    {w : WorldDoc.Value} (h : ts.map Token.toLexeme = [⟨kind, text, none⟩])
    (writes : ValueKind.ofToken? kind = some valueKind)
    (hliteral : WorldDoc.Value.ofLiteral? valueKind text = some w) :
    ∃ d : Derivation.Value, d.tokens = ts ∧ d.nesting = 0 ∧ d.meaning? = some w := by
  obtain ⟨t, later, rfl, htext, hlater⟩ := exists_terminal h
  obtain rfl := List.map_eq_nil_iff.mp hlater
  refine ⟨.scalar t.1 valueKind (by rw [t.2, writes]), rfl, rfl, ?_⟩
  rw [Derivation.Value.meaning?, htext, hliteral]

mutual

/-- Tokens with the lexemes of a value derive that value, and nest lists as deep. -/
theorem exists_value : (v : Value) → {ts : List Token} → ts.map Token.toLexeme = v.lexemes →
    ∃ d : Derivation.Value, d.tokens = ts ∧ d.nesting = v.nesting ∧ d.meaning? = some v.value
  | .string l, ts, h => exists_scalar h rfl (by
      rw [WorldDoc.Value.ofLiteral?, StringLiteral.string?_text]
      rfl)
  | .number n, ts, h => exists_scalar h rfl (by
      rw [WorldDoc.Value.ofLiteral?, Literal.number?, Numeral.decimal?_text]
      rfl)
  | .boolean true, ts, h => exists_scalar h rfl rfl
  | .boolean false, ts, h => exists_scalar h rfl rfl
  | .identifier i, ts, h => exists_scalar h rfl rfl
  | .list items trailingComma, ts, h => by
      obtain ⟨opening, inner, rfl, -, hinner⟩ := exists_terminal h
      obtain ⟨between, last, rfl, hbetween, hlast⟩ := List.map_eq_append_iff.mp hinner
      obtain ⟨closing, later, rfl, -, hlater⟩ := exists_terminal hlast
      obtain rfl := List.map_eq_nil_iff.mp hlater
      obtain ⟨is, rfl, hnesting, hmeaning⟩ := exists_items trailingComma items hbetween
      refine ⟨.list opening is closing, rfl, ?_, ?_⟩
      · rw [Derivation.Value.nesting, hnesting, Value.nesting]
      · rw [Derivation.Value.meaning?, hmeaning]
        rfl

/-- Tokens with the lexemes of the members of a list derive those members. -/
theorem exists_items (trailingComma : Bool) : (items : List Value) → {ts : List Token} →
    ts.map Token.toLexeme = itemLexemes trailingComma items →
    ∃ is : Derivation.Items, is.tokens = ts ∧ is.nesting = nestingAll items ∧
      is.meanings? = some (values items)
  | [], ts, h => by
      obtain rfl := List.map_eq_nil_iff.mp h
      exact ⟨.none, rfl, rfl, rfl⟩
  | v :: later, ts, h => by
      rw [itemLexemes] at h
      split at h
      -- the last member without a comma, or any member with one
      · rename_i hlast
        simp only [Bool.and_eq_true, List.isEmpty_iff] at hlast
        obtain ⟨rfl, -⟩ := hlast
        obtain ⟨d, hd, hnesting, hmeaning⟩ := exists_value v h
        refine ⟨.last d, hd, ?_, ?_⟩
        · rw [Derivation.Items.nesting, hnesting, nestingAll, nestingAll, Nat.max_zero]
        · rw [Derivation.Items.meanings?, hmeaning]
          rfl
      · obtain ⟨first, behind, rfl, hfirst, hbehind⟩ := List.map_eq_append_iff.mp h
        obtain ⟨comma, others, rfl, -, hothers⟩ := exists_terminal hbehind
        obtain ⟨d, rfl, hd, hmeaning⟩ := exists_value v hfirst
        obtain ⟨is, rfl, his, hmeanings⟩ := exists_items trailingComma later hothers
        refine ⟨.more d comma is, rfl, ?_, ?_⟩
        · rw [Derivation.Items.nesting, hd, his, nestingAll]
        · rw [Derivation.Items.meanings?, hmeaning, hmeanings]
          rfl

end

/-- Tokens with the lexemes of a field derive its key and its value. -/
theorem exists_field (f : Field) (h : ts.map Token.toLexeme = f.lexemes) :
    ∃ d : Derivation.Field × Option (Terminal .comma), fieldTokens d = ts ∧
      d.1.value.nesting = f.value.nesting ∧ d.1.pair? = some f.pair := by
  obtain ⟨key, behindKey, rfl, hkey, hbehindKey⟩ := exists_name f.key h
  obtain ⟨colon, behindColon, rfl, -, hbehindColon⟩ := exists_terminal hbehindKey
  obtain ⟨inner, behind, rfl, hinner, hbehind⟩ := List.map_eq_append_iff.mp hbehindColon
  obtain ⟨value, rfl, hnesting, hmeaning⟩ := exists_value f.value hinner
  have hentry : (Derivation.Field.mk key colon value).pair? = some f.pair := by
    rw [Derivation.Field.pair?, hmeaning, Field.pair, ← hkey]
    rfl
  split at hbehind
  · obtain ⟨comma, later, rfl, -, hlater⟩ := exists_terminal hbehind
    obtain rfl := List.map_eq_nil_iff.mp hlater
    exact ⟨(⟨key, colon, value⟩, some comma), rfl, hnesting, hentry⟩
  · obtain rfl := List.map_eq_nil_iff.mp hbehind
    exact ⟨(⟨key, colon, value⟩, none), rfl, hnesting, hentry⟩

/-- Tokens with the lexemes of some fields derive those fields, in their order. -/
theorem exists_fields (fs : List Field) (h : ts.map Token.toLexeme = fs.flatMap Field.lexemes) :
    ∃ ds : List (Derivation.Field × Option (Terminal .comma)), ds.flatMap fieldTokens = ts ∧
      (∀ d ∈ ds, ∃ f ∈ fs, (Derivation.Field.value d.1).nesting = f.value.nesting) ∧
        ds.mapM (fun d => Derivation.Field.pair? d.1) = some (fs.map Field.pair) := by
  induction fs generalizing ts with
  | nil =>
    obtain rfl := List.map_eq_nil_iff.mp h
    exact ⟨[], rfl, by simp, rfl⟩
  | cons f fs ih =>
    obtain ⟨first, later, rfl, hfirst, hlater⟩ := List.map_eq_append_iff.mp h
    obtain ⟨d, rfl, hnesting, hentry⟩ := exists_field f hfirst
    obtain ⟨ds, rfl, hall, hentries⟩ := ih hlater
    refine ⟨d :: ds, rfl, ?_, ?_⟩
    · rintro e he
      rcases List.mem_cons.mp he with rfl | he
      · exact ⟨f, List.mem_cons_self, hnesting⟩
      · obtain ⟨g, hg, hsame⟩ := hall e he
        exact ⟨g, List.mem_cons_of_mem _ hg, hsame⟩
    · rw [List.mapM_cons, hentry, hentries]
      rfl

/-- Tokens with the lexemes of a declaration derive one whose citizen is meant. -/
theorem exists_declaration (d : Declaration) (h : ts.map Token.toLexeme = d.lexemes) :
    ∃ e : Derivation.Declaration, e.tokens = ts ∧
      (∀ depth, (∀ f ∈ d.fields, f.value.nesting ≤ depth) → e.Within depth) ∧
        e.citizen? = some d.citizen := by
  obtain ⟨directive, behindDirective, rfl, hdirective, hbehindDirective⟩ := exists_terminal h
  obtain ⟨name, behindName, rfl, hname, hbehindName⟩ := exists_name d.name hbehindDirective
  obtain ⟨opening, behindOpening, rfl, -, hbehindOpening⟩ := exists_terminal hbehindName
  obtain ⟨inner, behind, rfl, hinner, hbehind⟩ := List.map_eq_append_iff.mp hbehindOpening
  obtain ⟨closing, later, rfl, -, hlater⟩ := exists_terminal hbehind
  obtain rfl := List.map_eq_nil_iff.mp hlater
  obtain ⟨fields, rfl, hnesting, hentries⟩ := exists_fields d.fields hinner
  refine ⟨⟨d.kind, directive, hdirective, name, opening, fields, closing⟩, rfl, ?_, ?_⟩
  · intro depth hdepth f hf
    obtain ⟨g, hg, hsame⟩ := hnesting f hf
    exact hsame ▸ hdepth g hg
  · rw [Derivation.Declaration.citizen?, hentries, Declaration.citizen, ← hname]
    rfl

/-- Tokens that are the lexemes of a document have a derivation that declares its citizens. -/
theorem exists_document (ds : List Declaration) (h : ts.map Token.toLexeme = lexemes ds) :
    ∃ e : Derivation.Document, e.tokens = ts ∧ (∀ depth, Within depth ds → e.Within depth) ∧
      e.citizens? = some (citizens ds) := by
  induction ds generalizing ts with
  | nil =>
    obtain rfl := List.map_eq_nil_iff.mp h
    exact ⟨⟨[]⟩, rfl, fun _ _ _ he => absurd he List.not_mem_nil, rfl⟩
  | cons d ds ih =>
    obtain ⟨first, later, rfl, hfirst, hlater⟩ := List.map_eq_append_iff.mp h
    obtain ⟨e, rfl, hnesting, hcitizen⟩ := exists_declaration d hfirst
    obtain ⟨⟨es⟩, rfl, hall, hcitizens⟩ := ih hlater
    refine ⟨⟨e :: es⟩, rfl, ?_, ?_⟩
    · intro depth hdepth
      refine List.forall_mem_cons.mpr ⟨hnesting depth (hdepth d List.mem_cons_self), ?_⟩
      exact hall depth fun g hg => hdepth g (List.mem_cons_of_mem _ hg)
    · replace hcitizens : es.mapM Derivation.Declaration.citizen? = some (citizens ds) := hcitizens
      rw [Derivation.Document.citizens?, List.mapM_cons, hcitizen, hcitizens]
      rfl

end Tokens

/-! ## Loading -/

/-- The text of a draft in some layout. -/
def print (ds : List Declaration) (layout : Layout) : SourceText :=
  .ofString (String.ofList (layout.print (lexemes ds)))

/-- The text of a draft is its lexemes in the layout. -/
theorem toList_print (ds : List Declaration) (layout : Layout) :
    (print ds layout).toList = layout.print (lexemes ds) := by
  rw [print, SourceText.toList_ofString, String.toList_ofList]

/-- A printed draft that nests no list too deep has no diagnostics. -/
theorem diagnostics_print (ds : List Declaration) (layout : Layout) {limit : NestingLimit}
    (hnesting : Within limit.depth ds) :
    (Document.parse (print ds layout) limit).diagnostics = [] := by
  obtain ⟨htokens, hlexical⟩ := layout.map_toLexeme_print (printable_lexemes ds)
  rw [← toList_print] at htokens hlexical
  obtain ⟨e, he, hwithin, -⟩ := exists_document ds htokens
  exact Document.diagnostics_eq_nil_of_tokens (hwithin _ hnesting) he hlexical

/-- Loading a printed draft yields the citizens that it was made for, in whatever layout it was
printed. -/
theorem load_print (ds : List Declaration) (layout : Layout) (limit : NestingLimit)
    (settings : Settings) (hnesting : Within limit.depth ds) :
    ∃ building,
      loadCitizens { settings with
        grammar := none, limit := some limit, duplicateFields := .overwrite } (print ds layout) =
          .ok building ∧
      building.outcome = .ok (citizens ds) := by
  refine ⟨citizensBy (.standard limit) .overwrite (print ds layout), rfl, ?_⟩
  obtain ⟨htokens, -⟩ := layout.map_toLexeme_print (printable_lexemes ds)
  rw [← toList_print] at htokens
  obtain ⟨e, he, hwithin, hcitizens⟩ := exists_document ds htokens
  -- building reads slices of the printed text, and at the range of a token that is its own text
  have hlegible : Legible (print ds layout) e.tokens := by
    intro t ht
    rw [he] at ht
    exact slice_range_of_mem_tokens (List.mem_filter.mp ht).1
  have htree := Document.sourceFile_eq_tree (hwithin _ hnesting) he
  have hbuilds : Builds .overwrite (Citizen.allOfOutline .overwrite
      (Document.parse (print ds layout) limit).sourceFile.outline) (citizens ds) :=
    Derivation.builds_document hlegible hcitizens (Or.inr (congrArg _ htree))
  rw [Document.outcome_citizensBy .overwrite (diagnostics_print ds layout hnesting)]
  exact hbuilds.outcome_of_overwrite

/-- A declaration whose one field holds a list in a list, with a comma behind the last member, and a
string that begins with a quote and goes over two lines. -/
def sample : List Declaration :=
  [{ kind := .member .events
     name := .identifier ⟨'e', ['-', '1'], by decide, List.all_eq_true.mp (by decide), by decide,
       by decide⟩
     fields :=
      [{ key := .string ⟨.single, ['k', ' '], by simp [Quotes.Fit, Lexical.isBreak]⟩
         value := .list
          [.string ⟨.triple, ['"', '\n'], fun h => absurd h.length_le (by decide), by decide⟩,
            .list [.number ⟨true, ⟨['7'], by decide, List.all_eq_true.mp (by decide)⟩, none, none⟩]
              true]
          false
         comma := false }] }]

/-- Each two lexemes on lines of their own, with a comment between them. -/
def sampleLayout : Layout where
  before := []
  gap _ := (.comment true ['#'] (by simp [Lexical.isBreak]) '\n' (by decide),
    [.blank ' ' (by decide)])
  after := []

/-- The sample nests two lists, which the limit allows. -/
theorem load_print_sample :
    Within 2 sample ∧ ∃ building,
      loadCitizens { limit := some ⟨2, by decide⟩ } (print sample sampleLayout) = .ok building ∧
        building.outcome = .ok (citizens sample) := by
  have hnesting : Within 2 sample := by
    simp [Within, sample, Value.nesting, nestingAll]
  exact ⟨hnesting, load_print sample sampleLayout ⟨2, by decide⟩ {} hnesting⟩

end WorldDoc.Draft
