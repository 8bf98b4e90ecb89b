import WorldDoc.Proofs.Lexical.Line
import WorldDoc.Proofs.Lexical.Lossless
import WorldDoc.Proofs.Text.LineBreak

/-!
# Tokens without carriage returns

A text in which every carriage return is followed by a line feed is cut into the same tokens without
its carriage returns: each has its kind and its fault, its text without carriage returns, and starts
where its offset has moved to (`tokens_withoutReturns`). No token cuts a line break in two
(`paired_take_start`, `paired_take_stop`), so places keep their order, and what is wrong with the
tokens is the same (`lexicalDiagnostics_withoutReturns`).

## Shape of the proof

A lexeme that is read from its line is the same, as the line is (`line_withoutReturns`). What goes
on beyond a line is a line break, which is one character shorter, or a text in three quotes, which
ends at the same quotes (`throughQuotes_withoutReturns`).
-/

namespace WorldDoc

open Lexical LineBreak

/-! ## Lexemes -/

/-- The line at the head of a text has no carriage returns to leave out. -/
theorem line_withoutReturns {text : List Char} (h : Paired text) :
    line (withoutReturns text) = line text := by
  have hbreak : isBreak '\r' = true ∧ isBreak '\n' = true := by decide
  induction text with
  | nil => rfl
  | cons c rest ih =>
    by_cases hc : c = '\r'
    · obtain ⟨later, rfl⟩ := List.head?_eq_some_iff.mp (h.1 hc)
      rw [hc, withoutReturns_return, withoutReturns_cons (by decide), line_of_isBreak hbreak.1,
        line_of_isBreak hbreak.2]
    · rw [withoutReturns_cons hc]
      cases hline : isBreak c with
      | true => rw [line_of_isBreak hline, line_of_isBreak hline]
      | false => rw [line_cons hline, line_cons hline, ih h.2]

/-- The lexeme without carriage returns. -/
def Lexeme.stripped (l : Lexeme) : Lexeme := { l with text := withoutReturns l.text }

namespace Lexeme

section Quoted

variable {text : List Char}

/-- Closing quotes are found behind what has gone by. -/
theorem lt_throughQuotes {passed n : Nat} (h : throughQuotes passed text = some n) : passed < n := by
  obtain ⟨content, rest, -, -, rfl⟩ := StringLiteral.exists_of_throughQuotes h
  omega

/-- Whether a text begins with two quotes does not depend on its carriage returns. -/
theorem take_two_withoutReturns (h : Paired text) :
    (withoutReturns text).take 2 = ['"', '"'] ↔ text.take 2 = ['"', '"'] := by
  rw [← take_two_line, line_withoutReturns h, take_two_line]

/-- The scan for three quotes stops at the same quotes. -/
theorem throughQuotes_withoutReturns (h : Paired text) (passed passed' : Nat) :
    throughQuotes passed' (withoutReturns text) = (throughQuotes passed text).map fun n =>
      passed' + (withoutReturns (text.take (n - passed))).length := by
  induction text generalizing passed passed' with
  | nil => rfl
  | cons c rest ih =>
    -- the scan has gone one character on, which is counted or not
    have hstep {n : Nat} (hn : throughQuotes (passed + 1) rest = some n) :
        (c :: rest).take (n - passed) = c :: rest.take (n - (passed + 1)) := by
      have hlt := lt_throughQuotes hn
      rw [show n - passed = n - (passed + 1) + 1 by omega, List.take_succ_cons]
    by_cases hquotes : c = '"' ∧ rest.take 2 = ['"', '"']
    · obtain ⟨rfl, htake⟩ := hquotes
      rw [withoutReturns_cons (by decide), throughQuotes,
        if_pos ⟨rfl, (take_two_withoutReturns h.2).mpr htake⟩, throughQuotes, if_pos ⟨rfl, htake⟩,
        Option.map_some, Nat.add_sub_cancel_left, List.take_succ_cons, htake]
      rfl
    · rw [throughQuotes, if_neg hquotes]
      by_cases hc : c = '\r'
      · rw [hc, withoutReturns_return, ih h.2 (passed + 1)]
        refine Option.map_congr fun n hn => ?_
        rw [← hc, hstep hn, hc, withoutReturns_return]
      · rw [← take_two_withoutReturns h.2] at hquotes
        rw [withoutReturns_cons hc, throughQuotes, if_neg hquotes, ih h.2 (passed + 1)]
        refine Option.map_congr fun n hn => ?_
        rw [hstep hn, withoutReturns_cons hc, List.length_cons]
        omega

/-- A text in three quotes ends at the same quotes. -/
theorem string_stripped (h : Paired text) (hopen : text.take 2 = ['"', '"']) :
    string (withoutReturns text) = (string text).stripped ∧ Paired (string text).text := by
  have hquote : '"' ≠ '\r' := by decide
  have hsplit : text = '"' :: '"' :: text.drop 2 := by
    conv_lhs => rw [← List.take_append_drop 2 text, hopen]
    rfl
  have hdrop : (withoutReturns text).drop 2 = withoutReturns (text.drop 2) := by
    conv_lhs => rw [hsplit]
    rw [withoutReturns_cons hquote, withoutReturns_cons hquote]
    rfl
  have hbody : Paired (text.drop 2) := by
    rw [← List.take_append_drop 2 text] at h
    exact h.right
  have hscan := throughQuotes_withoutReturns hbody 2 2
  rw [string, if_pos ((take_two_withoutReturns h).mpr hopen), hdrop, hscan, string, if_pos hopen]
  cases hclosed : throughQuotes 2 (text.drop 2) with
  | none =>
    refine ⟨?_, fun hq => absurd hq hquote, h⟩
    rw [Lexeme.stripped, withoutReturns_cons hquote]
    rfl
  | some n =>
    obtain ⟨m, rfl⟩ : ∃ m, n = m + 2 := ⟨n - 2, by have := lt_throughQuotes hclosed; omega⟩
    have htake : text.take (m + 2) = '"' :: '"' :: (text.drop 2).take m := by
      conv_lhs => rw [hsplit, List.take_succ_cons, List.take_succ_cons]
    have hlength : 2 + (withoutReturns ((text.drop 2).take m)).length = offsetWithout text (m + 2) := by
      rw [offsetWithout, htake, withoutReturns_cons hquote, withoutReturns_cons hquote,
        List.length_cons, List.length_cons]
      omega
    refine ⟨?_, fun hq => absurd hq hquote, ?_⟩
    · rw [Option.map_some, Nat.add_sub_cancel, hlength, Lexeme.stripped, withoutReturns_cons hquote]
      simp only [take_offsetWithout]
    · rw [← List.take_append_drop (m + 2) text] at h
      refine h.left ?_
      obtain ⟨content, behind, -, hcontent, hm⟩ := StringLiteral.exists_of_throughQuotes hclosed
      have hend : (text.drop 2).take m = content ++ ['"', '"'] ++ ['"'] := by
        have hlength : m = (content ++ Literal.tripleQuote).length := by
          rw [List.length_append, show Literal.tripleQuote.length = 3 from rfl]
          omega
        rw [hcontent, hlength, ← List.append_assoc, List.take_left, List.append_assoc]
        rfl
      rw [htake, hend, ← List.cons_append, ← List.cons_append, List.getLast?_concat]
      decide

end Quoted

section First

variable {c : Char} {rest : List Char}

/-- What is neither a line break nor a string has no carriage return. -/
theorem return_not_mem_first (hnewline : (first c rest).kind ≠ .newline)
    (hstring : (first c rest).kind ≠ .string) : '\r' ∉ (first c rest).text := by
  have hbreak : isBreak c = false := by
    rw [← Bool.not_eq_true]
    intro hbreak
    rw [first, if_pos hbreak] at hnewline
    split at hnewline <;> exact hnewline rfl
  have hquoted : ¬(c = '"' ∧ rest.take 2 = ['"', '"']) := by
    rintro ⟨rfl, -⟩
    rw [first_quote, string_kind] at hstring
    exact hstring rfl
  intro hmem
  exact absurd (isBreak_eq_false_of_mem_first hbreak hquoted _ hmem) (by decide)

/-- A text begins with the same lexeme without its carriage returns, and cuts no line break. -/
theorem first_stripped (h : Paired (c :: rest)) :
    (∃ d later, withoutReturns (c :: rest) = d :: later ∧
      first d later = (first c rest).stripped) ∧ Paired (first c rest).text := by
  by_cases hreturn : c = '\r'
  · obtain ⟨later, rfl⟩ := List.head?_eq_some_iff.mp (h.1 hreturn)
    rw [hreturn, first_return_feed]
    exact ⟨⟨'\n', withoutReturns later, rfl, first_feed _⟩, by decide⟩
  · rw [withoutReturns_cons hreturn]
    by_cases hfeed : c = '\n'
    · rw [hfeed, first_feed]
      exact ⟨⟨'\n', _, rfl, first_feed _⟩, by decide⟩
    · have hbreak : isBreak c = false := isBreak_eq_false hfeed hreturn
      by_cases hquoted : c = '"' ∧ rest.take 2 = ['"', '"']
      · obtain ⟨rfl, hopen⟩ := hquoted
        obtain ⟨hstring, hpaired⟩ := string_stripped h.2 hopen
        rw [first_quote]
        exact ⟨⟨'"', _, rfl, (first_quote _).trans hstring⟩, hpaired⟩
      · have hmem : '\r' ∉ (first c rest).text := fun hmem =>
          absurd (isBreak_eq_false_of_mem_first hbreak hquoted _ hmem) (by decide)
        refine ⟨⟨c, _, rfl, ?_⟩, .of_not_mem hmem⟩
        rw [Lexeme.stripped, withoutReturns_of_not_mem hmem,
          first_eq_of_line_eq hbreak hquoted (line_withoutReturns h.2).symm]

end First

end Lexeme

/-- A text without its carriage returns has the same lexemes without theirs, each of which has all
of its line breaks whole. -/
theorem lexemes_stripped {text : List Char} (h : Paired text) :
    lexemes (withoutReturns text) = (lexemes text).map Lexeme.stripped ∧
      ∀ l ∈ lexemes text, Paired l.text := by
  induction text using lexemes_induction with
  | nil =>
    rw [lexemes_nil]
    exact ⟨lexemes_nil, by simp⟩
  | cons c rest ih =>
    obtain ⟨⟨d, later, htext, hfirst⟩, hpaired⟩ := Lexeme.first_stripped h
    have hsplit := Lexeme.first_text_append_drop c rest
    have hbehind : Paired ((c :: rest).drop (Lexeme.first c rest).text.length) := by
      rw [← hsplit] at h
      exact h.right
    obtain ⟨hlexemes, hall⟩ := ih hbehind
    have hdrop : (d :: later).drop (Lexeme.first d later).text.length =
        withoutReturns ((c :: rest).drop (Lexeme.first c rest).text.length) := by
      rw [← htext, hfirst]
      conv_lhs => rw [← hsplit, withoutReturns_append]
      exact List.drop_left
    rw [htext, lexemes_cons, lexemes_cons, hdrop, hlexemes, hfirst]
    exact ⟨rfl, List.forall_mem_cons.mpr ⟨hpaired, hall⟩⟩

/-! ## Tokens -/

/-- The range without carriage returns. -/
def TextRange.stripped (text : List Char) (r : TextRange) : TextRange where
  start := offsetWithout text r.start
  stop := offsetWithout text r.stop
  start_le_stop := offsetWithout_mono r.start_le_stop

/-- The diagnostic with its range without carriage returns. -/
def Diagnostic.stripped (text : List Char) (d : Diagnostic) : Diagnostic :=
  { d with range := d.range.stripped text }

/-- The token of a text without carriage returns. -/
def Token.stripped (text : List Char) (t : Token) : Token where
  toLexeme := t.toLexeme.stripped
  start := offsetWithout text t.start

/-- Lexemes without carriage returns are placed where the carriage returns leave them. -/
theorem Token.place_stripped (front : List Char) (ls : List Lexeme) :
    place (withoutReturns front).length (ls.map Lexeme.stripped) =
      (place front.length ls).map (stripped (front ++ ls.flatMap Lexeme.text)) := by
  induction ls generalizing front with
  | nil => rfl
  | cons l later ih =>
    have hstart : (withoutReturns front).length + l.stripped.text.length =
        (withoutReturns (front ++ l.text)).length := by
      rw [withoutReturns_append, List.length_append]
      rfl
    have htext : front ++ (l :: later).flatMap Lexeme.text =
        front ++ l.text ++ later.flatMap Lexeme.text := by
      rw [List.flatMap_cons, List.append_assoc]
    rw [List.map_cons, place_cons, place_cons, List.map_cons, hstart, ih, htext, ← List.length_append,
      stripped, List.append_assoc, offsetWithout_append]

section Tokens

variable {text : List Char} {t : Token}

/-- A text without its carriage returns has the same tokens, each where it stands then. -/
theorem tokens_stripped (h : Paired text) :
    tokens (withoutReturns text) = (tokens text).map (Token.stripped text) := by
  have hplace := Token.place_stripped [] (lexemes text)
  rw [flatMap_text_lexemes] at hplace
  rw [tokens, (lexemes_stripped h).1]
  exact hplace

/-- The significant tokens correspond. -/
theorem significantTokens_stripped (h : Paired text) :
    significantTokens (withoutReturns text) =
      (significantTokens text).map (Token.stripped text) := by
  rw [significantTokens, tokens_stripped h, List.filter_map]
  rfl

/-- No token cuts a line break in two. -/
theorem paired_of_mem_tokens (h : Paired text) (ht : t ∈ tokens text) : Paired t.text :=
  (lexemes_stripped h).2 _ (toLexeme_mem_lexemes ht)

/-- The text up to the end of a token is the text up to the token and the token's own. -/
theorem take_stop_of_mem_tokens (ht : t ∈ tokens text) :
    text.take t.stop = text.take t.start ++ t.text := by
  obtain ⟨later, hlater⟩ := drop_start_of_mem_tokens ht
  rw [Token.stop, List.take_add, hlater, List.take_left]

/-- No token starts within a line break. -/
theorem paired_take_start (h : Paired text) (ht : t ∈ tokens text) : Paired (text.take t.start) := by
  obtain ⟨before, after, hlexemes, hstart⟩ := Token.exists_of_mem_place ht
  have htext : text = before.flatMap Lexeme.text ++ (t.toLexeme :: after).flatMap Lexeme.text := by
    rw [← List.flatMap_append, ← hlexemes, flatMap_text_lexemes]
  have hbefore : ∀ l ∈ before, Paired l.text := fun l hl =>
    (lexemes_stripped h).2 l (hlexemes ▸ List.mem_append_left _ hl)
  rw [hstart, Nat.zero_add, htext, List.take_left]
  clear hstart htext hlexemes
  induction before with
  | nil => trivial
  | cons l before ih =>
    obtain ⟨hl, hlater⟩ := List.forall_mem_cons.mp hbefore
    exact hl.append (ih hlater)

/-- No token stops within a line break. -/
theorem paired_take_stop (h : Paired text) (ht : t ∈ tokens text) : Paired (text.take t.stop) := by
  rw [take_stop_of_mem_tokens ht]
  exact (paired_take_start h ht).append (paired_of_mem_tokens h ht)

/-- The ranges of tokens correspond. -/
theorem range_stripped (ht : t ∈ tokens text) :
    (t.stripped text).range = t.range.stripped text := by
  refine TextRange.ext rfl ?_
  show offsetWithout text t.start + (withoutReturns t.text).length = offsetWithout text t.stop
  rw [offsetWithout, offsetWithout, take_stop_of_mem_tokens ht, withoutReturns_append,
    List.length_append]

/-- Only line breaks and strings have carriage returns to lose. -/
theorem text_stripped (ht : t ∈ tokens text) (hnewline : t.kind ≠ .newline)
    (hstring : t.kind ≠ .string) : withoutReturns t.text = t.text := by
  refine withoutReturns_of_not_mem ?_
  exact forall_mem_lexemes (p := fun l => l.kind ≠ .newline → l.kind ≠ .string → '\r' ∉ l.text)
    (fun _ _ => Lexeme.return_not_mem_first) _ (toLexeme_mem_lexemes ht) hnewline hstring

/-- A character that begins nothing is skipped. -/
theorem kind_of_unexpectedCharacter (ht : t ∈ tokens text)
    (hfault : t.fault = some .unexpectedCharacter) : t.kind = .skipped := by
  refine forall_mem_lexemes (p := fun l => l.fault = some .unexpectedCharacter → l.kind = .skipped)
    (fun c rest h => ?_) _ (toLexeme_mem_lexemes ht) hfault
  rw [Lexeme.fault_first] at h
  split at h
  · assumption
  · split at h <;> contradiction

/-- What is wrong with tokens corresponds. -/
theorem diagnostic?_stripped (ht : t ∈ tokens text) :
    (t.stripped text).diagnostic? = t.diagnostic?.map (Diagnostic.stripped text) := by
  have hrange := range_stripped ht
  have hkept : (t.stripped text).fault = t.fault := rfl
  rw [Token.diagnostic?, Token.diagnostic?, hkept]
  cases hfault : t.fault with
  | none => rfl
  | some fault =>
    cases fault with
    | unterminatedString => exact congrArg (fun r => some (Finding.unterminatedString.at r)) hrange
    | unexpectedCharacter =>
      have hkind := kind_of_unexpectedCharacter ht hfault
      have htext : (t.stripped text).text = t.text :=
        text_stripped ht (by rw [hkind]; decide) (by rw [hkind]; decide)
      simp only [Option.map_some, hrange, htext]
      rfl

/-- What is wrong with the tokens of a text is wrong with them without carriage returns. -/
theorem lexicalDiagnostics_stripped (h : Paired text) :
    lexicalDiagnostics (withoutReturns text) =
      (lexicalDiagnostics text).map (Diagnostic.stripped text) := by
  rw [lexicalDiagnostics, lexicalDiagnostics, tokens_stripped h, List.filterMap_map,
    List.map_filterMap]
  exact List.filterMap_congr fun t ht => diagnostic?_stripped ht

end Tokens

end WorldDoc
