import WorldDoc.Proofs.Lexical.First
import WorldDoc.Proofs.Lexical.Placement

/-!
# Layout

Blanks, line breaks and comments separate the lexemes of a text and do nothing else: a text has the
same lexemes to be seen with or without them (`seen_trivia`). So a text that is printed from
lexemes, with any layout that is not empty between two of them, is cut into these lexemes again
(`map_toLexeme_print`).

## Shape of the proof

Layout is taken off a text one character or one comment at a time. The lexer takes runs of blanks
and the two characters of a line break at once, and such a run need not end where a piece of layout
does; what is left in front of the text is layout again, so the lexemes to be seen are the same. A
lexeme itself is found again if it `Stands`: whatever separating character comes behind it, the
lexer reads it and nothing more.
-/

namespace WorldDoc

open Lexical

/-- Whether a lexeme is more than layout: it is no trivia, or something is wrong with it. -/
def Lexeme.isSeen (l : Lexeme) : Bool := !l.kind.isTrivia || l.fault.isSome

/-- The lexemes of a text that are more than layout. -/
def seen (text : List Char) : List Lexeme := (lexemes text).filter Lexeme.isSeen

/-- A piece of layout: a blank, a character that breaks the line, or a comment with the break that
ends it. -/
inductive Trivium where
  | blank (c : Char) (isBlank_c : isBlank c = true)
  | lineBreak (c : Char) (isBreak_c : isBreak c = true)
  | comment (slashes : Bool) (body : List Char) (noBreak : ∀ c ∈ body, isBreak c = false)
    (ending : Char) (isBreak_ending : isBreak ending = true)

/-- The text of a piece of layout. -/
def Trivium.text : Trivium → List Char
  | .blank c _ => [c]
  | .lineBreak c _ => [c]
  | .comment slashes body _ ending _ =>
    (if slashes then ['/', '/'] else ['#']) ++ (body ++ [ending])

/-- The text of some pieces of layout. -/
def triviaText (ts : List Trivium) : List Char := ts.flatMap Trivium.text

/-! ## Layout is not seen -/

section Seen

variable {c : Char} {rest : List Char}

/-- What is left behind a run of characters is what is left when the run is dropped. -/
theorem drop_takeWhile (p : Char → Bool) (c : Char) (rest : List Char) :
    (c :: rest).drop (c :: rest.takeWhile p).length = rest.dropWhile p := by
  have h : (c :: rest).drop (c :: rest.takeWhile p).length =
      (rest.takeWhile p ++ rest.dropWhile p).drop (rest.takeWhile p).length := by
    rw [List.takeWhile_append_dropWhile]
    rfl
  rw [h, List.drop_left]

/-- A lexeme that is not seen leaves what is seen to the rest of the text. -/
theorem seen_of_not_isSeen {l : Lexeme} (hfirst : Lexeme.first c rest = l)
    (hl : l.isSeen = false) : seen (c :: rest) = seen ((c :: rest).drop l.text.length) := by
  rw [seen, lexemes_cons, hfirst, List.filter_cons, if_neg (by simp [hl])]
  rfl

/-- A run of blanks is not seen, whichever part of it is at hand. -/
theorem seen_dropWhile_isBlank (text : List Char) : seen (text.dropWhile isBlank) = seen text := by
  cases text with
  | nil => rfl
  | cons c rest =>
    by_cases hc : isBlank c = true
    · rw [List.dropWhile_cons_of_pos hc, seen_of_not_isSeen (Lexeme.first_of_isBlank hc) rfl,
        drop_takeWhile]
    · rw [List.dropWhile_cons_of_neg hc]

/-- A blank is not seen. -/
theorem seen_of_isBlank (hc : isBlank c = true) (rest : List Char) :
    seen (c :: rest) = seen rest := by
  rw [seen_of_not_isSeen (Lexeme.first_of_isBlank hc) rfl, drop_takeWhile, seen_dropWhile_isBlank]

/-- A line break of one character is not seen. -/
theorem seen_of_single_break (hc : isBreak c = true)
    (hrest : ¬(c = '\r' ∧ rest.head? = some '\n')) : seen (c :: rest) = seen rest :=
  seen_of_not_isSeen (Lexeme.first_eq_iff.mpr (.lineBreak hc hrest)) rfl

/-- A line break is not seen, be it one character or two. -/
theorem seen_of_isBreak (hc : isBreak c = true) (rest : List Char) :
    seen (c :: rest) = seen rest := by
  by_cases hpair : c = '\r' ∧ rest.head? = some '\n'
  · obtain ⟨rfl, hhead⟩ := hpair
    obtain ⟨later, rfl⟩ := List.head?_eq_some_iff.mp hhead
    have hboth : seen ('\r' :: '\n' :: later) = seen later :=
      seen_of_not_isSeen (Lexeme.first_eq_iff.mpr (.feedReturn rfl rfl)) rfl
    rw [hboth, seen_of_single_break (by decide) (by simp)]
  · exact seen_of_single_break hc hpair

/-- The end of a line lies where its first line break stands. -/
theorem dropWhile_append_break {body : List Char} (hbody : ∀ d ∈ body, isBreak d = false)
    (hc : isBreak c = true) (rest : List Char) :
    (body ++ c :: rest).dropWhile (!isBreak ·) = c :: rest := by
  rw [List.dropWhile_append_of_pos fun d hd => by simp [hbody d hd],
    List.dropWhile_cons_of_neg (by simp [hc])]

/-- Layout in front of a text is not seen. -/
theorem seen_trivium (t : Trivium) (rest : List Char) : seen (t.text ++ rest) = seen rest := by
  cases t with
  | blank c hc => exact seen_of_isBlank hc rest
  | lineBreak c hc => exact seen_of_isBreak hc rest
  | comment slashes body hbody ending hending =>
    have hbehind : seen ((body ++ ending :: rest).dropWhile (!isBreak ·)) = seen rest := by
      rw [dropWhile_append_break hbody hending, seen_of_isBreak hending]
    cases slashes with
    | false =>
      have htext : (Trivium.comment false body hbody ending hending).text ++ rest =
          '#' :: (body ++ ending :: rest) := by
        simp [Trivium.text]
      rw [htext, seen_of_not_isSeen (Lexeme.first_of_comment (Or.inl rfl)) rfl, drop_takeWhile,
        hbehind]
    | true =>
      have htext : (Trivium.comment true body hbody ending hending).text ++ rest =
          '/' :: '/' :: (body ++ ending :: rest) := by
        simp [Trivium.text]
      rw [htext, seen_of_not_isSeen (Lexeme.first_of_comment (Or.inr ⟨rfl, rfl⟩)) rfl,
        drop_takeWhile, List.dropWhile_cons_of_pos (by decide), hbehind]

/-- Pieces of layout are not seen. -/
theorem seen_trivia (ts : List Trivium) (rest : List Char) :
    seen (triviaText ts ++ rest) = seen rest := by
  induction ts with
  | nil => rfl
  | cons t ts ih => rw [triviaText, List.flatMap_cons, List.append_assoc, seen_trivium, ← ih]; rfl

end Seen

/-! ## Lexemes that stand by themselves -/

/-- The text is empty or begins with a character that begins a piece of layout. -/
def Separated (rest : List Char) : Prop :=
  ∀ c ∈ rest.head?, isBlank c = true ∨ isBreak c = true ∨ c = '#' ∨ c = '/'

/-- An empty text is separated from whatever came before. -/
theorem separated_nil : Separated [] := by simp [Separated]

/-- A piece of layout separates what comes before from what follows. -/
theorem separated_trivium (t : Trivium) (rest : List Char) : Separated (t.text ++ rest) := by
  cases t with
  | blank c hc =>
    rintro d ⟨⟩
    exact Or.inl hc
  | lineBreak c hc =>
    rintro d ⟨⟩
    exact Or.inr (Or.inl hc)
  | comment slashes body hbody ending hending =>
    cases slashes <;> simp [Separated, Trivium.text]

/-- A lexeme is read off the front of any text where something separates it from what follows. -/
def Lexeme.Stands (l : Lexeme) : Prop :=
  ∃ c later, l.text = c :: later ∧ ∀ rest, Separated rest → Lexeme.first c (later ++ rest) = l

/-- A lexeme that stands by itself is seen before whatever is separated from it. -/
theorem seen_of_stands {l : Lexeme} (hstands : l.Stands) (hseen : l.isSeen = true)
    {rest : List Char} (hrest : Separated rest) : seen (l.text ++ rest) = l :: seen rest := by
  obtain ⟨c, later, htext, hfirst⟩ := hstands
  have hdrop : (c :: (later ++ rest)).drop l.text.length = rest := by
    rw [htext, ← List.cons_append, List.drop_left]
  rw [htext, List.cons_append, seen, lexemes_cons, hfirst rest hrest, hdrop, List.filter_cons,
    if_pos hseen]
  rfl

/-! ## Printing -/

/-- The layout of a text: what comes before its first lexeme, what comes between each two, and what
comes after the last one. There is something between any two. -/
structure Layout where
  before : List Trivium
  gap : Nat → Trivium × List Trivium
  after : List Trivium

namespace Layout

/-- Prints lexemes, where `i` of them came before. -/
def printFrom (y : Layout) (i : Nat) : List Lexeme → List Char
  | [] => triviaText y.after
  | [l] => l.text ++ triviaText y.after
  | l :: m :: ls =>
    l.text ++ (triviaText ((y.gap i).1 :: (y.gap i).2) ++ printFrom y (i + 1) (m :: ls))

/-- Prints lexemes. -/
def print (y : Layout) (ls : List Lexeme) : List Char :=
  triviaText y.before ++ y.printFrom 0 ls

/-- Layout in front of a text that is separated keeps it so. -/
theorem separated_triviaText (ts : List Trivium) {rest : List Char} (hrest : Separated rest) :
    Separated (triviaText ts ++ rest) := by
  cases ts with
  | nil => exact hrest
  | cons t ts =>
    rw [triviaText, List.flatMap_cons, List.append_assoc]
    exact separated_trivium t _

/-- Lexemes that are printed in a layout are what is seen. -/
theorem seen_printFrom (y : Layout) (i : Nat) {ls : List Lexeme}
    (hls : ∀ l ∈ ls, l.Stands ∧ l.isSeen = true) : seen (y.printFrom i ls) = ls := by
  have hafter : Separated (triviaText y.after) := by
    have h := separated_triviaText y.after separated_nil
    rwa [List.append_nil] at h
  have hnothing : seen (triviaText y.after) = [] := by
    have h := seen_trivia y.after []
    rw [List.append_nil] at h
    rw [h, seen, lexemes_nil]
    rfl
  induction ls generalizing i with
  | nil => exact hnothing
  | cons l ls ih =>
    obtain ⟨hstands, hseen⟩ := hls l List.mem_cons_self
    cases ls with
    | nil => rw [printFrom, seen_of_stands hstands hseen hafter, hnothing]
    | cons m ls =>
      have hgap : Separated (triviaText ((y.gap i).1 :: (y.gap i).2) ++
          y.printFrom (i + 1) (m :: ls)) := by
        rw [triviaText, List.flatMap_cons, List.append_assoc]
        exact separated_trivium _ _
      rw [printFrom, seen_of_stands hstands hseen hgap, seen_trivia,
        ih (i + 1) fun k hk => hls k (List.mem_cons_of_mem _ hk)]

/-- The lexemes to be seen in a printed text are those that were printed. -/
theorem seen_print (y : Layout) {ls : List Lexeme}
    (hls : ∀ l ∈ ls, l.Stands ∧ l.isSeen = true) : seen (y.print ls) = ls := by
  rw [print, seen_trivia, seen_printFrom y 0 hls]

end Layout

/-! ## Tokens -/

/-- The significant tokens of a text are its lexemes without trivia. -/
theorem map_toLexeme_significantTokens (text : List Char) :
    (significantTokens text).map Token.toLexeme =
      (lexemes text).filter fun l => !l.kind.isTrivia := by
  rw [significantTokens, ← Token.map_toLexeme_place 0 (lexemes text), List.filter_map]
  rfl

/-- If no lexeme to be seen is at fault the lexer reports nothing. -/
theorem lexicalDiagnostics_eq_nil {text : List Char} (h : ∀ l ∈ seen text, l.fault = none) :
    lexicalDiagnostics text = [] := by
  refine List.filterMap_eq_nil_iff.mpr fun t ht => ?_
  have hmem := toLexeme_mem_lexemes ht
  rw [Token.diagnostic?]
  cases hfault : t.fault with
  | none => rfl
  | some fault =>
    have hseen : t.toLexeme ∈ seen text :=
      List.mem_filter.mpr ⟨hmem, by simp [Lexeme.isSeen, hfault]⟩
    exact absurd (h _ hseen) (by simp [hfault])

/-- A lexeme that the parser sees, with which nothing is wrong, and that stands by itself. -/
structure Lexeme.Printable (l : Lexeme) : Prop where
  stands : l.Stands
  isTrivia_kind : l.kind.isTrivia = false
  fault_eq_none : l.fault = none

/-- A text printed from printable lexemes has no lexical diagnostics, and its tokens are these
lexemes. -/
theorem Layout.map_toLexeme_print (y : Layout) {ls : List Lexeme} (hls : ∀ l ∈ ls, l.Printable) :
    (significantTokens (y.print ls)).map Token.toLexeme = ls ∧
      lexicalDiagnostics (y.print ls) = [] := by
  have hseen : seen (y.print ls) = ls := y.seen_print fun l hl =>
    ⟨(hls l hl).stands, by simp [Lexeme.isSeen, (hls l hl).isTrivia_kind]⟩
  constructor
  · -- What is no trivia is seen, so nothing is lost when the trivia are left out.
    have hfilter : (seen (y.print ls)).filter (fun l => !l.kind.isTrivia) =
        (lexemes (y.print ls)).filter fun l => !l.kind.isTrivia := by
      rw [seen, List.filter_filter]
      refine List.filter_congr fun l _ => ?_
      cases h : l.kind.isTrivia <;> simp [Lexeme.isSeen, h]
    rw [map_toLexeme_significantTokens, ← hfilter, hseen]
    exact List.filter_eq_self.mpr fun l hl => by simp [(hls l hl).isTrivia_kind]
  · refine lexicalDiagnostics_eq_nil fun l hl => ?_
    rw [hseen] at hl
    exact (hls l hl).fault_eq_none

end WorldDoc
