import WorldDoc.Proofs.Lexical.First
import WorldDoc.Proofs.Lexical.Layout
import WorldDoc.Proofs.Lexical.Line

/-!
# Tokens of joined texts

Two texts may be joined with a line feed between them. If nothing is wrong with the lexemes of the
first one, the tokens of the whole that the parser sees are those of the first text and, each
further on, those of the second (`significantTokens_joined`); and what is wrong in the whole is what
is wrong in the second text (`lexicalDiagnostics_joined`).

## Shape of the proof

A line feed ends every lexeme but a string of several lines, and that one is closed where nothing is
wrong. So a lexeme of the first text is read alike with the line feed and the second text behind it
(`first_append_feed`), with one exception: a carriage return at the very end takes the line feed
along. Line breaks are not seen, whichever way they are cut.
-/

namespace WorldDoc

open Lexical

/-! ## Lexemes before a line feed -/

/-- The line at the head of a text is the same with another line behind the text. -/
theorem line_append_feed (text later : List Char) : line (text ++ '\n' :: later) = line text := by
  induction text with
  | nil => exact line_of_isBreak rfl later
  | cons c text ih =>
    rw [List.cons_append]
    cases hc : isBreak c with
    | true => rw [line_of_isBreak hc, line_of_isBreak hc]
    | false => rw [line_cons hc, line_cons hc, ih]

namespace Lexeme

/-- Whether a text begins with two quotes does not depend on another line behind it. -/
theorem take_two_append_feed (text later : List Char) :
    (text ++ '\n' :: later).take 2 = ['"', '"'] ↔ text.take 2 = ['"', '"'] := by
  rw [← take_two_line, line_append_feed, take_two_line]

/-- A text that begins with two quotes has at least two characters. -/
theorem two_le_length {text : List Char} (h : text.take 2 = ['"', '"']) : 2 ≤ text.length := by
  have hlength := congrArg List.length h
  simp only [List.length_take, List.length_cons, List.length_nil] at hlength
  omega

/-- Closing quotes are found within the text. -/
theorem throughQuotes_le {text : List Char} {passed length : Nat}
    (h : throughQuotes passed text = some length) : length ≤ passed + text.length := by
  induction text generalizing passed with
  | nil => contradiction
  | cons c text ih =>
    rw [throughQuotes] at h
    rw [List.length_cons]
    split at h
    · rename_i hquotes
      have := two_le_length hquotes.2
      have := Option.some.inj h
      omega
    · have := ih h
      omega

/-- Closing quotes that are found are also found with another line behind the text. -/
theorem throughQuotes_append_feed {text : List Char} {passed length : Nat} (later : List Char)
    (h : throughQuotes passed text = some length) :
    throughQuotes passed (text ++ '\n' :: later) = some length := by
  induction text generalizing passed with
  | nil => contradiction
  | cons c text ih =>
    rw [throughQuotes] at h
    rw [List.cons_append, throughQuotes]
    split at h
    · rename_i hquotes
      rw [if_pos ⟨hquotes.1, (take_two_append_feed text later).mpr hquotes.2⟩, h]
    · rename_i hquotes
      rw [if_neg fun hboth => hquotes ⟨hboth.1, (take_two_append_feed text later).mp hboth.2⟩, ih h]

/-- A text in three quotes that is closed is not changed by what comes after a line feed. -/
theorem string_append_feed {text : List Char} (later : List Char)
    (hopen : text.take 2 = ['"', '"']) (hfault : (string text).fault = none) :
    string (text ++ '\n' :: later) = string text := by
  unfold string at hfault ⊢
  rw [if_pos hopen] at hfault
  rw [if_pos hopen, if_pos ((take_two_append_feed text later).mpr hopen),
    List.drop_append_of_le_length (two_le_length hopen)]
  cases hclosed : throughQuotes 2 (text.drop 2) with
  | none =>
    rw [hclosed] at hfault
    contradiction
  | some length =>
    have hlength := throughQuotes_le hclosed
    have := two_le_length hopen
    rw [List.length_drop] at hlength
    rw [throughQuotes_append_feed later hclosed]
    simp only [List.take_append_of_le_length (show length ≤ text.length by omega)]

/-- A lexeme with which nothing is wrong is read alike where a line feed comes behind the text. Only
a carriage return at the end of the text takes the line feed along. -/
theorem first_append_feed {c : Char} {rest : List Char} (later : List Char)
    (hfault : (first c rest).fault = none) (hreturn : ¬(c = '\r' ∧ rest = [])) :
    first c (rest ++ '\n' :: later) = first c rest := by
  by_cases hbreak : isBreak c = true
  · have hhead : (c = '\r' ∧ (rest ++ '\n' :: later).head? = some '\n') ↔
        (c = '\r' ∧ rest.head? = some '\n') := by
      cases rest with
      | nil => simpa using hreturn
      | cons => rfl
    simp only [first, if_pos hbreak, hhead]
  by_cases hquoted : c = '"' ∧ rest.take 2 = ['"', '"']
  · obtain ⟨rfl, hopen⟩ := hquoted
    rw [first_quote] at hfault
    rw [first_quote, first_quote, string_append_feed later hopen hfault]
  · exact (first_eq_of_line_eq (by simpa using hbreak) hquoted (line_append_feed rest later).symm).symm

end Lexeme

/-! ## Moved and joined texts -/

/-- The range as many characters further on. -/
def TextRange.moved (n : Nat) (r : TextRange) : TextRange where
  start := r.start + n
  stop := r.stop + n
  start_le_stop := Nat.add_le_add_right r.start_le_stop n

/-- The diagnostic as many characters further on. -/
def Diagnostic.moved (n : Nat) (d : Diagnostic) : Diagnostic := { d with range := d.range.moved n }

namespace Token

/-- The token as many characters further on. -/
def moved (n : Nat) (t : Token) : Token := { t with start := t.start + n }

/-- A token that is moved ends as far on as it is moved. -/
theorem stop_moved (n : Nat) (t : Token) : (t.moved n).stop = t.stop + n :=
  Nat.add_right_comm _ _ _

/-- The range of a token that is moved is moved as far. -/
theorem range_moved (n : Nat) (t : Token) : (t.moved n).range = t.range.moved n :=
  TextRange.ext rfl (stop_moved n t)

/-- What is wrong with a token that is moved is wrong as far on. -/
theorem diagnostic?_moved (n : Nat) (t : Token) :
    (t.moved n).diagnostic? = t.diagnostic?.map (Diagnostic.moved n) := by
  obtain ⟨⟨kind, text, fault⟩, start⟩ := t
  cases fault with
  | none => rfl
  | some fault =>
    have hrange := range_moved n ⟨⟨kind, text, some fault⟩, start⟩
    cases fault with
    | unterminatedString => exact congrArg (fun r => some (Finding.unterminatedString.at r)) hrange
    | unexpectedCharacter =>
      exact congrArg (fun r => some (Finding.unexpectedCharacter.at r
        s!"{Finding.unexpectedCharacter.message} Found `{String.ofList text}`.")) hrange

/-- Lexemes that are placed further on are tokens moved as far. -/
theorem place_add (offset n : Nat) (ls : List Lexeme) :
    place (offset + n) ls = (place offset ls).map (moved n) := by
  induction ls generalizing offset with
  | nil => rfl
  | cons l ls ih => rw [place_cons, place_cons, List.map_cons, ← ih, Nat.add_right_comm]; rfl

end Token

/-- Two texts with a line feed between them. -/
def SourceText.joined (a b : SourceText) : SourceText := ⟨a.chars ++ #['\n'] ++ b.chars⟩

/-- The characters of two texts that are joined are those of both, with a line feed between them. -/
theorem SourceText.toList_joined (a b : SourceText) :
    (a.joined b).toList = a.toList ++ '\n' :: b.toList := by
  simp [toList, joined]

/-! ## Tokens of a joined text -/

section Joined

variable {α : Type} {a : List Char}

/-- What is taken of the tokens of a joined text is what is taken of those of the first text and of
those of the second one in their place, if nothing is taken of layout. -/
theorem filterMap_place_joined {f : Token → Option α}
    (hf : ∀ t, t.toLexeme.isSeen = false → f t = none) (hclean : ∀ l ∈ lexemes a, l.fault = none)
    (b : List Char) (offset : Nat) :
    (Token.place offset (lexemes (a ++ '\n' :: b))).filterMap f =
      (Token.place offset (lexemes a)).filterMap f ++
        (Token.place (offset + (a.length + 1)) (lexemes b)).filterMap f := by
  induction a using lexemes_induction generalizing offset with
  | nil =>
    rw [List.nil_append, lexemes_cons, first_feed, lexemes_nil, Token.place_cons,
      List.filterMap_cons_none (hf _ rfl)]
    rfl
  | cons c rest ih =>
    by_cases hreturn : c = '\r' ∧ rest = []
    · -- both line breaks are layout, whether the line feed belongs to the first one or not
      obtain ⟨rfl, rfl⟩ := hreturn
      have hsingle : Lexeme.first '\r' [] = ⟨.newline, ['\r'], none⟩ :=
        Lexeme.first_eq_iff.mpr (.lineBreak rfl (by simp))
      rw [List.singleton_append, lexemes_cons, lexemes_cons, first_return_feed, hsingle,
        Token.place_cons, Token.place_cons, List.filterMap_cons_none (hf _ rfl),
        List.filterMap_cons_none (hf _ rfl)]
      simp
    · have hprefix := Lexeme.isPrefix_first_text c rest
      rw [lexemes_cons] at hclean ⊢
      obtain ⟨hfault, hlater⟩ := List.forall_mem_cons.mp hclean
      have hdrop : (c :: (rest ++ '\n' :: b)).drop (Lexeme.first c rest).text.length =
          (c :: rest).drop (Lexeme.first c rest).text.length ++ '\n' :: b :=
        List.drop_append_of_le_length hprefix.length_le
      have hlength : (Lexeme.first c rest).text.length +
          ((c :: rest).drop (Lexeme.first c rest).text.length).length = (c :: rest).length := by
        rw [List.length_drop]
        exact Nat.add_sub_cancel' hprefix.length_le
      rw [List.cons_append, lexemes_cons, Lexeme.first_append_feed b hfault hreturn, hdrop,
        Token.place_cons, Token.place_cons, List.filterMap_cons, List.filterMap_cons,
        ih hlater, Nat.add_assoc, ← Nat.add_assoc _ _ 1, hlength]
      cases f ⟨Lexeme.first c rest, offset⟩ <;> rfl

end Joined

/-- In a text without diagnostics nothing is wrong with any lexeme. -/
theorem fault_eq_none_of_mem_lexemes {text : List Char} (hclean : lexicalDiagnostics text = [])
    {l : Lexeme} (hl : l ∈ lexemes text) : l.fault = none := by
  rw [← Token.map_toLexeme_place 0 (lexemes text)] at hl
  obtain ⟨t, ht, rfl⟩ := List.mem_map.mp hl
  exact fault_eq_none_of_mem_tokens ht hclean

variable {a : SourceText}

/-- The parser sees the tokens of the first text, and those of the second one further on. -/
theorem significantTokens_joined (hclean : lexicalDiagnostics a.toList = []) (b : SourceText) :
    significantTokens (a.joined b).toList =
      significantTokens a.toList ++
        (significantTokens b.toList).map (Token.moved (a.length + 1)) := by
  have hlayout (t : Token) (ht : t.toLexeme.isSeen = false) :
      Option.guard Token.isSignificant t = none := by
    have htrivia : t.kind.isTrivia = true := by
      simpa [Lexeme.isSeen] using (Bool.or_eq_false_iff.mp ht).1
    simp [Option.guard, Token.isSignificant, htrivia]
  have hjoined := filterMap_place_joined hlayout
    (fun l hl => fault_eq_none_of_mem_lexemes hclean hl) b.toList 0
  rw [← SourceText.toList_joined, Token.place_add, List.filterMap_eq_filter] at hjoined
  rw [significantTokens, tokens, hjoined, SourceText.length_toList, List.filter_map]
  rfl

/-- What is wrong with the lexemes is what is wrong with those of the second text, further on. -/
theorem lexicalDiagnostics_joined (hclean : lexicalDiagnostics a.toList = []) (b : SourceText) :
    lexicalDiagnostics (a.joined b).toList =
      (lexicalDiagnostics b.toList).map (Diagnostic.moved (a.length + 1)) := by
  have hlayout (t : Token) (ht : t.toLexeme.isSeen = false) : t.diagnostic? = none := by
    have hfault : t.fault = none := by
      simpa using (Bool.or_eq_false_iff.mp ht).2
    rw [Token.diagnostic?, hfault]
    rfl
  have hjoined := filterMap_place_joined hlayout
    (fun l hl => fault_eq_none_of_mem_lexemes hclean hl) b.toList 0
  have hnone : (Token.place 0 (lexemes a.toList)).filterMap Token.diagnostic? = [] := hclean
  rw [← SourceText.toList_joined, Token.place_add, hnone, List.nil_append, List.filterMap_map]
    at hjoined
  rw [lexicalDiagnostics, tokens, hjoined, SourceText.length_toList, lexicalDiagnostics, tokens,
    List.map_filterMap]
  exact congrArg (List.filterMap · _) (funext (Token.diagnostic?_moved _))

end WorldDoc
