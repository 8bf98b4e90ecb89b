import WorldDoc.Proofs.Lexical.First
import WorldDoc.Value.Literal

/-!
# String literals

The closed string literals of world documents as data: the quotes, one or three of them at either
end, and the text between them, which must fit them. A literal in single quotes holds neither a
quote nor a line break; one in triple quotes holds anything but three quotes in a row, and does not
end with a quote, since that one would close it.

The lexer finds a literal wherever one stands (`first_stringLiteral`) and everything that it reads
as a string without a fault is one (`exists_stringLiteral`); the decoder takes the quotes off
(`string?_text`).
-/

namespace WorldDoc

open Lexical

/-- The quotes at either end of a literal. -/
inductive Quotes where
  | single
  | triple
  deriving DecidableEq, Repr

namespace Quotes

/-- The characters of the quotes. -/
def marks : Quotes → List Char
  | single => ['"']
  | triple => Literal.tripleQuote

/-- Whether a text can stand between the quotes. -/
def Fit : Quotes → List Char → Prop
  | single, content => ∀ c ∈ content, c ≠ '"' ∧ isBreak c = false
  | triple, content => ¬Literal.tripleQuote <:+: content ∧ content.getLast? ≠ some '"'

end Quotes

/-- A closed string literal. -/
structure StringLiteral where
  quotes : Quotes
  content : List Char
  fit : quotes.Fit content

namespace StringLiteral

/-- The text of a literal. -/
def text (l : StringLiteral) : List Char := l.quotes.marks ++ (l.content ++ l.quotes.marks)

/-! ## The decoder -/

/-- What stands between quotes is quoted. -/
theorem isQuotedBy_append (quotes content : List Char) :
    Literal.isQuotedBy quotes (quotes ++ (content ++ quotes)) = true := by
  have hlength : (quotes ++ (content ++ quotes)).length - quotes.length =
      (quotes ++ content).length := by
    simp only [List.length_append]
    omega
  have hend : (quotes ++ (content ++ quotes)).drop (quotes ++ content).length = quotes := by
    rw [← List.append_assoc, List.drop_left]
  rw [Literal.isQuotedBy, List.take_left, hlength, hend]
  simp
  omega

/-- The content is what stands between the quotes. -/
theorem between_append (quotes content : List Char) :
    Literal.between quotes.length (quotes ++ (content ++ quotes)) = content := by
  have hlength : (quotes ++ (content ++ quotes)).length - 2 * quotes.length = content.length := by
    simp only [List.length_append]
    omega
  rw [Literal.between, List.drop_left, hlength, List.take_left]

/-- Single quotes around a text that fits them are not taken for triple quotes. -/
theorem isQuotedBy_tripleQuote_single {content : List Char} (hfit : Quotes.single.Fit content) :
    Literal.isQuotedBy Literal.tripleQuote ('"' :: (content ++ ['"'])) = false := by
  cases content with
  | nil => rfl
  | cons c later =>
    have hc : c ≠ '"' := (hfit c List.mem_cons_self).1
    simp [Literal.isQuotedBy, Literal.tripleQuote, hc]

/-- The decoder takes the quotes off a literal. -/
theorem string?_text (l : StringLiteral) : Literal.string? l.text = some l.content := by
  obtain ⟨quotes, content, hfit⟩ := l
  cases quotes with
  | single =>
    have hquoted : Literal.isQuotedBy ['"'] ('"' :: (content ++ ['"'])) = true :=
      isQuotedBy_append ['"'] content
    have hbetween : Literal.between 1 ('"' :: (content ++ ['"'])) = content :=
      between_append ['"'] content
    show Literal.string? ('"' :: (content ++ ['"'])) = some content
    rw [Literal.string?, isQuotedBy_tripleQuote_single hfit, if_neg (by decide), if_pos hquoted]
    exact congrArg some hbetween
  | triple =>
    have hquoted := isQuotedBy_append Literal.tripleQuote content
    have hbetween := between_append Literal.tripleQuote content
    show Literal.string? (Literal.tripleQuote ++ (content ++ Literal.tripleQuote)) = some content
    rw [Literal.string?, if_pos hquoted]
    exact congrArg some hbetween

/-! ## The lexer -/

/-- The scan for three quotes passes over a text that fits triple quotes and stops behind them. -/
theorem throughQuotes_append {content : List Char} (hfit : Quotes.triple.Fit content)
    (passed : Nat) (rest : List Char) :
    Lexeme.throughQuotes passed (content ++ (Literal.tripleQuote ++ rest)) =
      some (passed + (content.length + 3)) := by
  induction content generalizing passed with
  | nil => rfl
  | cons c later ih =>
    obtain ⟨hinner, hlast⟩ := hfit
    have hlater : Quotes.triple.Fit later := by
      refine ⟨fun h => hinner (List.infix_cons h), fun h => hlast ?_⟩
      rw [List.getLast?_cons, h]
      rfl
    -- three quotes from here on would lie in the content, or its last character would be a quote
    have hnot : ¬(c = '"' ∧ (later ++ (Literal.tripleQuote ++ rest)).take 2 = ['"', '"']) := by
      rintro ⟨rfl, htake⟩
      match later with
      | [] => exact hlast rfl
      | [d] =>
        obtain rfl : d = '"' := (List.cons.inj htake).1
        exact hlast rfl
      | d :: e :: behind =>
        obtain ⟨rfl, htail⟩ := List.cons.inj htake
        obtain rfl : e = '"' := (List.cons.inj htail).1
        exact hinner ⟨[], behind, rfl⟩
    rw [List.cons_append, Lexeme.throughQuotes, if_neg hnot, ih hlater]
    simp only [List.length_cons, Option.some.injEq]
    omega

/-- What the scan for three quotes has passed when it stops fits triple quotes. -/
theorem exists_of_throughQuotes {passed length : Nat} {text : List Char}
    (h : Lexeme.throughQuotes passed text = some length) :
    ∃ content rest, Quotes.triple.Fit content ∧ text = content ++ (Literal.tripleQuote ++ rest) ∧
      length = passed + (content.length + 3) := by
  induction text generalizing passed with
  | nil => exact absurd h (by simp [Lexeme.throughQuotes])
  | cons c later ih =>
    rw [Lexeme.throughQuotes] at h
    split at h
    · rename_i hquotes
      obtain ⟨rfl, htake⟩ := hquotes
      obtain rfl := Option.some.inj h
      refine ⟨[], later.drop 2, ⟨by simp [Literal.tripleQuote], by simp⟩, ?_, rfl⟩
      rw [← List.take_append_drop 2 later, htake]
      rfl
    · rename_i hnot
      obtain ⟨content, rest, ⟨hinner, hlast⟩, rfl, rfl⟩ := ih h
      -- three quotes that begin with `c` would have stopped the scan here
      refine ⟨c :: content, rest, ⟨?_, ?_⟩, rfl, ?_⟩
      · intro hcons
        rcases List.infix_cons_iff.mp hcons with hbegin | hlater
        · obtain ⟨behind, hbehind⟩ := hbegin
          obtain ⟨rfl, hcontent⟩ := List.cons.inj hbehind
          exact hnot ⟨rfl, by rw [← hcontent]; rfl⟩
        · exact hinner hlater
      · intro hcons
        cases content with
        | nil =>
          obtain rfl := Option.some.inj hcons
          exact hnot ⟨rfl, rfl⟩
        | cons d behind => exact hlast (by rwa [List.getLast?_cons_cons] at hcons)
      · simp only [List.length_cons]
        omega

/-- The characters up to where the scan for three quotes has stopped. -/
theorem take_scanned (content rest : List Char) :
    ('"' :: '"' :: (content ++ Literal.tripleQuote) ++ rest).take (2 + (content.length + 3)) =
      '"' :: '"' :: (content ++ Literal.tripleQuote) := by
  have hlength : 2 + (content.length + 3) =
      ('"' :: '"' :: (content ++ Literal.tripleQuote)).length := by
    simp only [Literal.tripleQuote, List.length_cons, List.length_append, List.length_nil]
    omega
  rw [hlength, List.take_left]

/-- The run of characters that single quotes may hold ends at the closing quote. -/
theorem takeWhile_content {content : List Char} (hfit : Quotes.single.Fit content)
    (rest : List Char) :
    ((content ++ '"' :: rest).takeWhile fun c => c ≠ '"' && !isBreak c) = content := by
  rw [List.takeWhile_append_of_pos]
  · simp
  · intro c hc
    obtain ⟨hquote, hbreak⟩ := hfit c hc
    simp [hquote, hbreak]

/-- The lexer reads a literal as a string without a fault and takes nothing of what stands behind
it, as long as that is not one more quote behind a literal in single quotes. -/
theorem first_stringLiteral (l : StringLiteral) {c : Char} {later rest : List Char}
    (hrest : l.quotes = .single → rest.head? ≠ some '"') (htext : l.text = c :: later) :
    Lexeme.first c (later ++ rest) = ⟨.string, c :: later, none⟩ := by
  obtain ⟨quotes, content, hfit⟩ := l
  cases quotes with
  | single =>
    obtain ⟨rfl, rfl⟩ := List.cons.inj htext
    show Lexeme.first '"' (content ++ ['"'] ++ rest) = ⟨.string, '"' :: (content ++ ['"']), none⟩
    -- an empty literal and one more quote would open a text in triple quotes
    have hopen : (content ++ '"' :: rest).take 2 ≠ ['"', '"'] := by
      intro htake
      match content with
      | [] =>
        cases rest with
        | nil => exact absurd htake (by simp)
        | cons d behind => exact hrest rfl (by simpa using htake)
      | d :: behind => exact (hfit d List.mem_cons_self).1 (List.cons.inj htake).1
    rw [List.append_assoc, List.singleton_append, Lexeme.first_quote, Lexeme.string, if_neg hopen]
    simp only [takeWhile_content hfit, List.drop_left, List.head?_cons, if_true]
  | triple =>
    obtain ⟨rfl, rfl⟩ := List.cons.inj htext
    show Lexeme.first '"' ('"' :: '"' :: (content ++ Literal.tripleQuote) ++ rest) =
      ⟨.string, '"' :: '"' :: '"' :: (content ++ Literal.tripleQuote), none⟩
    have hdrop : ('"' :: '"' :: (content ++ Literal.tripleQuote) ++ rest).drop 2 =
        content ++ (Literal.tripleQuote ++ rest) := by
      simp
    rw [Lexeme.first_quote, Lexeme.string, if_pos (by simp), hdrop,
      throughQuotes_append hfit 2 rest]
    simp only [take_scanned]

/-- A string that is read without a fault is a literal, in triple quotes if that many open it. -/
theorem exists_stringLiteral {rest : List Char} (hfault : (Lexeme.string rest).fault = none) :
    ∃ l : StringLiteral, l.text = (Lexeme.string rest).text ∧
      (l.quotes = .triple ↔ rest.take 2 = ['"', '"']) := by
  unfold Lexeme.string at hfault ⊢
  split at hfault
  · rename_i hopen
    rw [if_pos hopen]
    split at hfault
    · rename_i length hscan
      obtain ⟨content, behind, hfit, hdrop, rfl⟩ := exists_of_throughQuotes hscan
      have hrest : rest = '"' :: '"' :: (content ++ Literal.tripleQuote) ++ behind := by
        rw [← List.take_append_drop 2 rest, hopen, hdrop]
        simp
      refine ⟨⟨.triple, content, hfit⟩, ?_, iff_of_true rfl hopen⟩
      simp only [hrest, take_scanned]
      rfl
    · exact absurd hfault (by simp)
  · rename_i hopen
    rw [if_neg hopen]
    simp only at hfault ⊢
    split at hfault
    · rename_i hclose
      rw [if_pos hclose]
      refine ⟨⟨.single, _, ?_⟩, rfl, iff_of_false nofun hopen⟩
      intro c hc
      have hrun := List.all_eq_true.mp List.all_takeWhile c hc
      simpa using hrun
    · exact absurd hfault (by simp)

end StringLiteral

end WorldDoc
