import Mathlib.Data.List.Chain
import WorldDoc.Proofs.Lexical.Placement
import WorldDoc.Proofs.Value.StringLiteral

/-!
# Nothing of a text is lost

A text is cut into tokens one after the other, from its first character to its last, and behind them
comes the end of the file. Written as a loop that knows no more than where it stands (`cutFrom`),
the cutting always comes to an end, and what it yields are the tokens of the text (`cutFrom_eq`).
They stand side by side without a gap, so that joined they are the text again, and what is wrong
with them can be told from their kinds and texts alone (`cut_lossless`).

## Shape of the proof

The loop follows the cut of a text into its first lexeme and what is left, and ends because no
lexeme is empty. That every token starts where the one before it stopped is how tokens are placed.
For the diagnostics it is enough to look at one lexeme: only strings and characters that begin
nothing can be at fault (`fault_first`), and a string is at fault if the quotes that open it do not
close it (`fault_string`). Closed strings are literals; that no quotes stand at the end of the
others is what the two scans for the closing quotes have found out.
-/

namespace WorldDoc

open Lexical

/-! ## The loop -/

/-- Cuts a text into tokens from an offset on, up to the end of the file. Nothing says beforehand
that this comes to an end. -/
def cutFrom (text : List Char) (offset : Nat) : Option (List Token) :=
  if h : offset < text.length then do
    let lexeme := Lexeme.first text[offset] (text.drop (offset + 1))
    -- called with `apply`, so that the term does not remember at which line of this file it stands
    let later ← by apply cutFrom; exact text; exact offset + lexeme.text.length
    return ⟨lexeme, offset⟩ :: later
  else
    some [.endOfFile offset]
partial_fixpoint

/-- Behind any part of a text the loop yields the tokens of what is left. -/
theorem cutFrom_length (before rest : List Char) :
    cutFrom (before ++ rest) before.length =
      some (Token.place before.length (lexemes rest) ++
        [.endOfFile (before.length + rest.length)]) := by
  induction rest using lexemes_induction generalizing before with
  | nil =>
    rw [cutFrom, dif_neg (by simp), lexemes_nil]
    rfl
  | cons c rest ih =>
    -- the loop goes on behind the first lexeme, which belongs to what it has passed from then on
    have hcut := Lexeme.first_text_append_drop c rest
    have hlength : (before ++ (Lexeme.first c rest).text).length =
        before.length + (Lexeme.first c rest).text.length := List.length_append
    have hlater := ih (before ++ (Lexeme.first c rest).text)
    rw [List.append_assoc, hcut, hlength] at hlater
    have hend : before.length + (Lexeme.first c rest).text.length +
        ((c :: rest).drop (Lexeme.first c rest).text.length).length =
          before.length + (c :: rest).length := by
      conv => rhs; rw [← hcut, List.length_append]
      exact Nat.add_assoc _ _ _
    rw [hend] at hlater
    have hdrop : (before ++ c :: rest).drop (before.length + 1) = rest := by
      rw [← List.drop_drop, List.drop_left, List.drop_one, List.tail_cons]
    have hlt : before.length < (before ++ c :: rest).length := by simp
    have hget : (before ++ c :: rest)[before.length] = c := by
      rw [List.getElem_append_right (Nat.le_refl _)]
      simp only [Nat.sub_self, List.getElem_cons_zero]
    rw [cutFrom, dif_pos hlt]
    simp only [hget, hdrop, hlater]
    rw [lexemes_cons, Token.place_cons]
    rfl

/-- The loop comes to an end with the tokens of the text and the end of the file. -/
theorem cutFrom_eq (text : List Char) :
    cutFrom text 0 = some (tokens text ++ [.endOfFile text.length]) := by
  have h := cutFrom_length [] text
  rwa [List.length_nil, Nat.zero_add] at h

/-! ## Side by side -/

namespace Token

/-- Tokens that are placed from an offset on, and the end of the file behind them, begin there. -/
theorem start_head?_place (offset : Nat) (ls : List Lexeme) :
    (place offset ls ++ [endOfFile (offset + (ls.flatMap Lexeme.text).length)]).head?.map start =
      some offset := by
  cases ls with
  | nil => rfl
  | cons l later =>
    rw [place_cons]
    rfl

/-- Each of them starts where the one before it stopped. -/
theorem isChain_place (offset : Nat) (ls : List Lexeme) :
    (place offset ls ++ [endOfFile (offset + (ls.flatMap Lexeme.text).length)]).IsChain
      fun t u => u.start = t.stop := by
  induction ls generalizing offset with
  | nil => exact List.IsChain.singleton _
  | cons l later ih =>
    rw [place_cons, List.flatMap_cons, List.length_append, ← Nat.add_assoc, List.cons_append,
      List.isChain_cons]
    refine ⟨fun u hu => ?_, ih (offset + l.text.length)⟩
    have hstart := start_head?_place (offset + l.text.length) later
    rw [Option.mem_def.mp hu] at hstart
    exact Option.some.inj hstart

end Token

/-- The parts of a text that its tokens take, joined, are the text. -/
theorem flatMap_slice_tokens (source : SourceText) :
    (tokens source.toList).flatMap (fun t => (source.slice t.range).toList) = source.toList := by
  have hslice : (tokens source.toList).flatMap (fun t => (source.slice t.range).toList) =
      (tokens source.toList).flatMap fun t => t.text := by
    refine List.flatMap_congr fun t ht => ?_
    rw [slice_range_of_mem_tokens ht, String.toList_ofList]
  have hlexemes := flatMap_text_lexemes source.toList
  rw [← Token.map_toLexeme_place 0 (lexemes source.toList), List.flatMap_map] at hlexemes
  exact hslice.trans hlexemes

/-! ## What is wrong with a lexeme -/

/-- The quotes that open a string: three if it begins with three, else one. -/
def openingQuotes (text : List Char) : List Char :=
  if Literal.tripleQuote <+: text then Literal.tripleQuote else ['"']

/-- The text of a string ends with the quotes that open it, and these are not the same ones. -/
def ClosedByOpening (text : List Char) : Prop :=
  ∃ content, text = openingQuotes text ++ (content ++ openingQuotes text)

/-- A text is quoted if something stands between the quotes at its beginning and those at its
end. -/
theorem isQuotedBy_iff {quotes text : List Char} :
    Literal.isQuotedBy quotes text = true ↔ ∃ content, text = quotes ++ (content ++ quotes) := by
  constructor
  · intro h
    simp only [Literal.isQuotedBy, Bool.and_eq_true, decide_eq_true_eq, beq_iff_eq] at h
    obtain ⟨⟨hlength, hbegin⟩, hend⟩ := h
    have hcount : text.length - quotes.length =
        quotes.length + (text.length - 2 * quotes.length) := by omega
    rw [hcount, ← List.drop_drop] at hend
    refine ⟨(text.drop quotes.length).take (text.length - 2 * quotes.length), ?_⟩
    calc text
        = text.take quotes.length ++ text.drop quotes.length := (List.take_append_drop _ _).symm
      _ = quotes ++ text.drop quotes.length := by rw [hbegin]
      _ = quotes ++ ((text.drop quotes.length).take (text.length - 2 * quotes.length) ++
            (text.drop quotes.length).drop (text.length - 2 * quotes.length)) := by
          rw [List.take_append_drop]
      _ = _ := by rw [hend]
  · rintro ⟨content, rfl⟩
    exact StringLiteral.isQuotedBy_append quotes content

instance (text : List Char) : Decidable (ClosedByOpening text) :=
  decidable_of_iff _ isQuotedBy_iff

/-- A quote that two others do not follow opens a string by itself. -/
theorem openingQuotes_single {rest : List Char} (h : ¬ ['"', '"'] <+: rest) :
    openingQuotes ('"' :: rest) = ['"'] :=
  if_neg fun hthree => h (List.cons_prefix_cons.mp hthree).2

/-- Three quotes in a row open a string together. -/
theorem openingQuotes_triple (rest : List Char) :
    openingQuotes ('"' :: '"' :: '"' :: rest) = Literal.tripleQuote :=
  if_pos (List.prefix_append Literal.tripleQuote rest)

/-- A literal is closed by the quotes that open it. -/
theorem StringLiteral.closedByOpening_text (l : StringLiteral) : ClosedByOpening l.text := by
  obtain ⟨quotes, content, hfit⟩ := l
  have hopening : openingQuotes (quotes.marks ++ (content ++ quotes.marks)) = quotes.marks := by
    cases quotes with
    | single =>
      refine openingQuotes_single fun hquotes => ?_
      cases content with
      | nil => exact absurd hquotes (by decide)
      | cons c later =>
        exact (hfit c List.mem_cons_self).1 (List.cons_prefix_cons.mp hquotes).1.symm
    | triple => exact openingQuotes_triple _
  refine ⟨content, ?_⟩
  show quotes.marks ++ (content ++ quotes.marks) = _
  rw [StringLiteral.text, hopening]

/-- Where three quotes stand the scan for them stops. -/
theorem throughQuotes_ne_none (passed : Nat) (content rest : List Char) :
    Lexeme.throughQuotes passed (content ++ (Literal.tripleQuote ++ rest)) ≠ none := by
  induction content generalizing passed with
  | nil => simp [Lexeme.throughQuotes, Literal.tripleQuote]
  | cons c later ih =>
    rw [List.cons_append, Lexeme.throughQuotes]
    split
    · exact Option.some_ne_none _
    · exact ih (passed + 1)

/-- A text in which the scan for three quotes does not stop closes none. -/
theorem not_closedByOpening_triple {passed : Nat} {rest : List Char}
    (hscan : Lexeme.throughQuotes passed rest = none) :
    ¬ ClosedByOpening ('"' :: '"' :: '"' :: rest) := by
  rintro ⟨content, h⟩
  rw [openingQuotes_triple] at h
  have hrest : rest = content ++ (Literal.tripleQuote ++ []) := by
    simpa [Literal.tripleQuote] using h
  rw [hrest] at hscan
  exact throughQuotes_ne_none passed content [] hscan

/-- A text without a quote closes none. -/
theorem not_closedByOpening_single {body : List Char} (hbody : '"' ∉ body) :
    ¬ ClosedByOpening ('"' :: body) := by
  rintro ⟨content, h⟩
  rw [openingQuotes_single fun hquotes => hbody (hquotes.subset List.mem_cons_self)] at h
  have hend : body = content ++ ['"'] := (List.cons.inj h).2
  exact hbody (hend ▸ List.mem_append_right content List.mem_cons_self)

namespace Lexeme

/-- A string is at fault exactly if the quotes that open it do not close it. -/
theorem fault_string (rest : List Char) :
    (string rest).fault =
      if ClosedByOpening (string rest).text then none else some .unterminatedString := by
  cases hfault : (string rest).fault with
  | none =>
    obtain ⟨literal, htext, -⟩ := StringLiteral.exists_stringLiteral hfault
    rw [← htext, if_pos literal.closedByOpening_text]
  | some fault =>
    unfold string at hfault ⊢
    split at hfault
    · rename_i hopen
      rw [if_pos hopen]
      split at hfault
      · contradiction
      · rename_i hscan
        obtain rfl := Option.some.inj hfault
        have hrest : rest = '"' :: '"' :: rest.drop 2 := by
          conv => lhs; rw [← List.take_append_drop 2 rest, hopen]
          rfl
        show _ = if ClosedByOpening ('"' :: rest) then _ else _
        rw [hrest, if_neg (not_closedByOpening_triple hscan)]
    · rename_i hopen
      rw [if_neg hopen]
      simp only at hfault ⊢
      split at hfault
      · contradiction
      · rename_i hclose
        obtain rfl := Option.some.inj hfault
        have hbody : '"' ∉ rest.takeWhile fun c => c ≠ '"' && !isBreak c := by
          intro hmem
          have hrun := List.all_eq_true.mp List.all_takeWhile _ hmem
          simp at hrun
        rw [if_neg hclose, if_neg (not_closedByOpening_single hbody)]

/-- A word is no string, and begins something. -/
theorem nameKind_ne (text : List Char) : nameKind text ≠ .skipped ∧ nameKind text ≠ .string := by
  unfold nameKind
  split
  · exact ⟨nofun, nofun⟩
  · split <;> exact ⟨nofun, nofun⟩

/-- What is wrong with a lexeme can be told from its kind and its text. -/
theorem fault_first (c : Char) (rest : List Char) :
    (first c rest).fault =
      if (first c rest).kind = .skipped then some .unexpectedCharacter
      else if (first c rest).kind = .string ∧ ¬ ClosedByOpening (first c rest).text then
        some .unterminatedString
      else none := by
  have hfirst := firstOf_first c rest
  generalize first c rest = l at hfirst
  cases hfirst with
  | quoted hc =>
    rw [fault_string, string_kind]
    by_cases hclosed : ClosedByOpening (string rest).text <;> simp [hclosed]
  | name hc =>
    obtain ⟨hskipped, hstring⟩ := nameKind_ne (c :: rest.takeWhile isNameContinue)
    rw [if_neg hskipped, if_neg fun h => hstring h.1]
  | punctuation hc =>
    unfold punctuation? at hc
    split at hc <;> cases hc <;> rfl
  | _ => rfl

/-- A character that begins nothing is a lexeme by itself. -/
theorem length_text_first_of_skipped {c : Char} {rest : List Char}
    (h : (first c rest).kind = .skipped) : (first c rest).text.length = 1 := by
  have hfirst := firstOf_first c rest
  generalize first c rest = l at h hfirst
  cases hfirst with
  | skipped => rfl
  | punctuation hc => rfl
  | quoted hc =>
    rw [string_kind] at h
    contradiction
  | name hc => exact absurd h (nameKind_ne _).1
  | _ => contradiction

end Lexeme

/-! ## All tokens of a text -/

section Tokens

variable {text : List Char} {t : Token}

/-- The diagnostic of a token can be told from its kind and its text. -/
theorem diagnostic?_of_mem_tokens (h : t ∈ tokens text) :
    t.diagnostic? =
      if t.kind = .skipped then
        some (Finding.unexpectedCharacter.at t.range
          s!"Unexpected character. Found `{String.ofList t.text}`.")
      else if t.kind = .string ∧ ¬ ClosedByOpening t.text then
        some (Finding.unterminatedString.at t.range)
      else none := by
  have hfault : t.fault = if t.kind = .skipped then some .unexpectedCharacter
      else if t.kind = .string ∧ ¬ ClosedByOpening t.text then some .unterminatedString
      else none :=
    forall_mem_lexemes (p := fun l => l.fault = if l.kind = .skipped then some .unexpectedCharacter
      else if l.kind = .string ∧ ¬ ClosedByOpening l.text then some .unterminatedString
      else none) Lexeme.fault_first _ (toLexeme_mem_lexemes h)
  rw [Token.diagnostic?, hfault]
  split_ifs <;> rfl

/-- What is skipped is one character at a time. -/
theorem stop_of_skipped (h : t ∈ tokens text) (hskipped : t.kind = .skipped) :
    t.stop = t.start + 1 := by
  have hlength : t.text.length = 1 :=
    forall_mem_lexemes (p := fun l => l.kind = .skipped → l.text.length = 1)
      (fun _ _ => Lexeme.length_text_first_of_skipped) _ (toLexeme_mem_lexemes h) hskipped
  rw [Token.stop, hlength]

end Tokens

/-- Cutting a text comes to an end, with tokens and one end of the file behind them. The first token
starts at the beginning of the text, each other one where the one before it stopped, and the end of
the file stands at the end of the text and is empty; none of the tokens is. So the parts of the text
that they take are the text again. What the lexer reports are, in the order of the tokens, the
single characters that begin nothing and the strings that the quotes that open them do not close. -/
theorem cut_lossless (source : SourceText) :
    ∃ ts e, cutFrom source.toList 0 = some (ts ++ [e]) ∧ ts = tokens source.toList ∧
      e.kind = .eof ∧ e.range = .empty source.length ∧
      (∀ t ∈ ts, t.kind ≠ .eof ∧ t.start < t.stop) ∧
      (ts ++ [e]).head?.map Token.start = some 0 ∧
      (ts ++ [e]).IsChain (fun t u => u.start = t.stop) ∧
      (ts ++ [e]).flatMap (fun t => (source.slice t.range).toList) = source.toList ∧
      (∀ t ∈ ts, t.kind = .skipped → t.stop = t.start + 1) ∧
      lexicalDiagnostics source.toList = ts.filterMap fun t =>
        if t.kind = .skipped then
          some (Finding.unexpectedCharacter.at t.range
            s!"Unexpected character. Found `{String.ofList t.text}`.")
        else if t.kind = .string ∧ ¬ ClosedByOpening t.text then
          some (Finding.unterminatedString.at t.range)
        else none := by
  have hend : .endOfFile source.length =
      Token.endOfFile (0 + ((lexemes source.toList).flatMap Lexeme.text).length) := by
    rw [flatMap_text_lexemes, Nat.zero_add]
    rfl
  have hempty : (source.slice (.empty source.length)).toList = [] := by
    simp [SourceText.slice_eq]
  refine ⟨tokens source.toList, .endOfFile source.length, cutFrom_eq source.toList, rfl, rfl, rfl,
    fun t ht => ⟨kind_ne_eof_of_mem_tokens ht, start_lt_stop_of_mem_tokens ht⟩, ?_, ?_, ?_,
    fun t => stop_of_skipped, List.filterMap_congr fun t => diagnostic?_of_mem_tokens⟩
  · rw [hend]
    exact Token.start_head?_place 0 (lexemes source.toList)
  · rw [hend]
    exact Token.isChain_place 0 (lexemes source.toList)
  · rw [List.flatMap_append, flatMap_slice_tokens]
    show source.toList ++ ((source.slice (.empty source.length)).toList ++ []) = _
    rw [hempty, List.append_nil, List.append_nil]

end WorldDoc
