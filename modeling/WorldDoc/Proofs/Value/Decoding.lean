import WorldDoc.Proofs.Lexical.Longest

/-!
# What the lexer reads the decoder reads too

Numbers and the quotes of strings are described twice, once for the lexer, which looks for the end
of a literal in a text, and once for the decoder, which has the literal by itself and tests it as a
whole. The two agree at every token (`lexer_and_decoder_agree`): a number is decoded and no longer
beginning of the text would be, a truth value is the one its word says, and a string that is closed
is decoded to what lies between the quotes that the lexer has matched. What can lie there is known,
and all of it is read back.

Both accept the numerals as numbers, and both have the literals as strings; so all that is left to
see is that the class of a token and the result of the decoder are told by these two.
-/

namespace WorldDoc

open Lexical

/-- The decoder accepts numerals as numbers and nothing else. -/
theorem Literal.isSome_number?_iff {text : List Char} :
    (number? text).isSome ↔ Lexeme.IsNumber text := by
  rw [number?, Option.isSome_map]
  constructor
  · exact Numeral.exists_numeral_of_decimal?
  · rintro ⟨n, rfl⟩
    rw [Numeral.decimal?_text]
    rfl

namespace Lexeme

/-! ## Lexemes by their kinds -/

/-- A punctuation mark is no token that carries a value. -/
theorem kind_of_mem_marks {mark : TokenKind × Char} (h : mark ∈ marks) :
    mark.1 ≠ .number ∧ mark.1 ≠ .trueWord ∧ mark.1 ≠ .falseWord ∧ mark.1 ≠ .string := by
  revert mark
  decide

section Kinds

variable {text : List Char} {l : Lexeme}

/-- A token for a number is the longest number that the text begins with. -/
theorem longest_of_kind_number (h : Matches text l) (hkind : l.kind = .number) :
    Longest IsNumber text l.text := by
  cases h with
  | number h => exact h
  | mark hmark => exact absurd hkind (kind_of_mem_marks hmark).1
  | _ => contradiction

/-- The decoder takes the words of the truth values for what the lexer does. -/
theorem boolean?_of_kind (h : Matches text l) :
    (l.kind = .trueWord → Literal.boolean? l.text = some true) ∧
      (l.kind = .falseWord → Literal.boolean? l.text = some false) := by
  cases h with
  | trueWord h => exact ⟨fun _ => rfl, nofun⟩
  | falseWord h => exact ⟨nofun, fun _ => rfl⟩
  | mark hmark =>
    obtain ⟨-, htrue, hfalse, -⟩ := kind_of_mem_marks hmark
    exact ⟨fun hkind => absurd hkind htrue, fun hkind => absurd hkind hfalse⟩
  | _ => exact ⟨nofun, nofun⟩

/-- A string begins with a quote. -/
theorem first_of_kind_string {c : Char} {rest : List Char} (hkind : (first c rest).kind = .string) :
    c = '"' ∧ first c rest = string rest := by
  have hfirst := firstOf_first c rest
  generalize first c rest = l at hkind hfirst
  cases hfirst with
  | quoted hc => exact ⟨hc, rfl⟩
  | name hc => exact absurd hkind (nameKind_ne _).2
  | punctuation hc => exact absurd hkind (kind_of_mem_marks (mem_marks_iff.mpr hc)).2.2.2
  | _ => contradiction

end Kinds

end Lexeme

/-! ## Strings -/

section Strings

variable {text : List Char} {t : Token}

/-- A string of which the lexer does not report that it is not closed is a literal in the quotes
that stand where the token starts. -/
theorem exists_literal_of_mem_tokens (h : t ∈ tokens text) (hkind : t.kind = .string)
    (hclosed : Finding.unterminatedString.at t.range ∉ lexicalDiagnostics text) :
    ∃ l : StringLiteral, l.text = t.text ∧ openingQuotes (text.drop t.start) = l.quotes.marks := by
  obtain ⟨c, rest, hdrop, hfirst⟩ := exists_first_of_mem_tokens h
  obtain ⟨rfl, hstring⟩ := Lexeme.first_of_kind_string (hfirst ▸ hkind)
  rw [hstring] at hfirst
  have hfault : (Lexeme.string rest).fault = none := by
    refine Option.eq_none_iff_forall_ne_some.mpr fun fault hfault => hclosed ?_
    obtain rfl := Lexeme.fault_eq_of_string hfault
    rw [← hfirst] at hfault
    exact List.mem_filterMap.mpr ⟨t, h, by rw [Token.diagnostic?, hfault]; rfl⟩
  rw [hdrop, hfirst]
  exact Lexeme.exists_literal_of_string hfault

/-- What fits between quotes does not hold them. -/
theorem Quotes.Fit.not_marks_infix {quotes : Quotes} {content : List Char}
    (hfit : quotes.Fit content) : ¬quotes.marks <:+: content := by
  cases quotes with
  | single => exact fun h => (hfit '"' (h.subset List.mem_cons_self)).1 rfl
  | triple => exact hfit.1

/-- Between three quotes a content does not end with a quote. -/
theorem Quotes.Fit.getLast?_ne {quotes : Quotes} {content : List Char}
    (hfit : quotes.Fit content) (htriple : quotes.marks = Literal.tripleQuote) :
    content.getLast? ≠ some '"' := by
  cases quotes with
  | single => contradiction
  | triple => exact hfit.2

/-- A literal with something behind it is one token, at the beginning of a text and wherever else a
token starts with it, and the decoder reads it as a content. -/
structure ReadBack (literal rest content : List Char) : Prop where
  decoded : Literal.string? literal = some content
  lexed : lexemes (literal ++ rest) = ⟨.string, literal, none⟩ :: lexemes rest
  placed : ∀ text, ∀ t ∈ tokens text, text.drop t.start = literal ++ rest →
    t.toLexeme = ⟨.string, literal, none⟩

/-- All literals are read back, as long as no quote comes behind one in single quotes. -/
theorem StringLiteral.readBack (l : StringLiteral) {rest : List Char}
    (hrest : l.quotes = .single → rest.head? ≠ some '"') : ReadBack l.text rest l.content := by
  obtain ⟨later, htext⟩ : ∃ later, l.text = '"' :: later := by
    obtain ⟨quotes, content, hfit⟩ := l
    cases quotes with
    | single => exact ⟨_, rfl⟩
    | triple => exact ⟨_, rfl⟩
  have hfirst := l.first_stringLiteral hrest htext
  rw [htext]
  refine ⟨htext ▸ l.string?_text, ?_, fun text t ht hdrop => ?_⟩
  · rw [List.cons_append, lexemes_cons, hfirst]
    simp only [← List.cons_append, List.drop_left]
  · obtain ⟨c, behind, hcons, htoken⟩ := exists_first_of_mem_tokens ht
    obtain ⟨rfl, rfl⟩ := List.cons.inj (hcons.symm.trans hdrop)
    exact htoken.trans hfirst

end Strings

/-- The lexer and the decoder agree at every token of a text. Numbers are decoded, and no longer
beginning of the text from the token on is one; the words for truth values are decoded as such. A
string that the lexer does not report is decoded to what lies between the quotes that open it, three
or one, and the same quotes at its end; those do not occur within it, and before three of them does
not stand one more. Conversely whatever fits between quotes is found between them, as one token
wherever they stand: for one quote a text without quotes and line breaks, as long as no further
quote comes behind it, and for three a text without three quotes in a row and without one at its
end. -/
theorem lexer_and_decoder_agree (text : List Char) :
    (∀ t ∈ tokens text, t.kind = .number → (Literal.number? t.text).isSome ∧
      ∀ u, u <+: text.drop t.start → (Literal.number? u).isSome → u.length ≤ t.text.length) ∧
    (∀ t ∈ tokens text, (t.kind = .trueWord → Literal.boolean? t.text = some true) ∧
      (t.kind = .falseWord → Literal.boolean? t.text = some false)) ∧
    (∀ t ∈ tokens text, t.kind = .string →
      Finding.unterminatedString.at t.range ∉ lexicalDiagnostics text →
        ∃ quotes content, quotes = openingQuotes (text.drop t.start) ∧
          t.text = quotes ++ (content ++ quotes) ∧ Literal.string? t.text = some content ∧
          ¬quotes <:+: content ∧ (quotes = Literal.tripleQuote → content.getLast? ≠ some '"')) ∧
    (∀ content rest, (∀ c ∈ content, c ≠ '"' ∧ c ≠ '\n' ∧ c ≠ '\r') → rest.head? ≠ some '"' →
      ReadBack ('"' :: (content ++ ['"'])) rest content) ∧
    (∀ content rest, ¬Literal.tripleQuote <:+: content → content.getLast? ≠ some '"' →
      ReadBack (Literal.tripleQuote ++ (content ++ Literal.tripleQuote)) rest content) := by
  refine ⟨fun t ht hkind => ?_, fun t ht => Lexeme.boolean?_of_kind (Lexeme.matches_of_mem_tokens ht),
    fun t ht hkind hclosed => ?_, fun content rest hcontent hrest => ?_,
    fun content rest hinner hlast => ?_⟩
  · have hlongest := Lexeme.longest_of_kind_number (Lexeme.matches_of_mem_tokens ht) hkind
    simp only [Literal.isSome_number?_iff]
    exact ⟨hlongest.holds, hlongest.length_le⟩
  · obtain ⟨l, htext, hopen⟩ := exists_literal_of_mem_tokens ht hkind hclosed
    exact ⟨_, l.content, rfl, by rw [hopen, ← htext]; rfl, htext ▸ l.string?_text,
      hopen ▸ l.fit.not_marks_infix, fun htriple => l.fit.getLast?_ne (hopen ▸ htriple)⟩
  · have hfit : Quotes.single.Fit content := fun c hc => by
      obtain ⟨hquote, hfeed, hreturn⟩ := hcontent c hc
      exact ⟨hquote, Lexeme.isBreak_eq_false hfeed hreturn⟩
    exact StringLiteral.readBack ⟨.single, content, hfit⟩ fun _ => hrest
  · exact StringLiteral.readBack ⟨.triple, content, hinner, hlast⟩ nofun

end WorldDoc
