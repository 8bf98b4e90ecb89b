import Mathlib.Data.List.TakeWhile
import WorldDoc.Proofs.Lexical.First
import WorldDoc.Proofs.Lexical.Placement

/-!
# Lexemes within one line

Only line breaks and texts in three quotes go on beyond a line. Any other lexeme is read from the
line that it begins in (`first_line`), so that it is the same wherever that line comes from
(`first_eq_of_line_eq`), and none of its characters breaks the line
(`isBreak_eq_false_of_mem_first`).
-/

namespace WorldDoc

open Lexical

/-- A text up to its first line break. -/
def Lexical.line (text : List Char) : List Char := text.takeWhile (!isBreak ·)

section Line

variable {text : List Char}

/-- A character that is no line break belongs to the line. -/
theorem line_cons {c : Char} (hc : isBreak c = false) (rest : List Char) :
    line (c :: rest) = c :: line rest :=
  List.takeWhile_cons_of_pos (by simp [hc])

/-- A line break ends the line. -/
theorem line_of_isBreak {c : Char} (hc : isBreak c = true) (rest : List Char) :
    line (c :: rest) = [] :=
  List.takeWhile_cons_of_neg (by simp [hc])

/-- A line has no line breaks. -/
theorem isBreak_eq_false_of_mem_line {c : Char} (h : c ∈ line text) : isBreak c = false := by
  have hrun := List.all_eq_true.mp List.all_takeWhile c h
  simpa using hrun

/-- A run of characters that do not break the line lies within it. -/
theorem takeWhile_line {p : Char → Bool} (hp : ∀ c, p c = true → isBreak c = false)
    (text : List Char) : (line text).takeWhile p = text.takeWhile p := by
  rw [line, List.takeWhile_takeWhile]
  congr 1
  funext c
  cases hc : p c with
  | false => simp
  | true => simp [hp c hc]

/-- Within the line it does not matter what is dropped first, the beginning or what is behind the
line. -/
theorem drop_line {n : Nat} (hn : n ≤ (line text).length) :
    (line text).drop n = line (text.drop n) := by
  induction n generalizing text with
  | zero => rfl
  | succ n ih =>
    cases text with
    | nil => rfl
    | cons c rest =>
      cases hc : isBreak c with
      | true =>
        rw [line_of_isBreak hc] at hn
        exact absurd hn (Nat.not_succ_le_zero n)
      | false =>
        rw [line_cons hc] at hn ⊢
        exact ih (Nat.le_of_succ_le_succ hn)

/-- A line and its text begin with the same characters, line breaks apart. -/
theorem head?_line {c : Char} (hc : isBreak c = false) (text : List Char) :
    (line text).head? = some c ↔ text.head? = some c := by
  cases text with
  | nil => rfl
  | cons d rest =>
    cases hd : isBreak d with
    | false => rw [line_cons hd, List.head?_cons, List.head?_cons]
    | true =>
      have hne : d ≠ c := by
        rintro rfl
        rw [hc] at hd
        contradiction
      simp [line_of_isBreak hd, hne]

/-- A property that no line break has is one of the first character of the line or of none. -/
theorem any_head?_line {p : Char → Bool} (hp : ∀ c, p c = true → isBreak c = false)
    (text : List Char) : (line text).head?.any p = text.head?.any p := by
  cases text with
  | nil => rfl
  | cons d rest =>
    cases hd : isBreak d with
    | false => rw [line_cons hd, List.head?_cons, List.head?_cons]
    | true =>
      have hpd : p d = false := by
        rw [← Bool.not_eq_true]
        intro h
        rw [hp d h] at hd
        contradiction
      simp [line_of_isBreak hd, hpd]

/-- Two quotes at the beginning of a text stand in its first line. -/
theorem take_two_line (text : List Char) :
    (line text).take 2 = ['"', '"'] ↔ text.take 2 = ['"', '"'] := by
  have hquote : isBreak '"' = false := by decide
  constructor
  · intro h
    have hprefix : (line text).take 2 <+: text :=
      (List.take_prefix 2 _).trans (List.takeWhile_prefix _)
    obtain ⟨later, hlater⟩ := h ▸ hprefix
    rw [← hlater]
    rfl
  · intro h
    rw [← List.take_append_drop 2 text, h, List.cons_append, line_cons hquote, List.cons_append,
      line_cons hquote]
    rfl

end Line

namespace Lexeme

/-- A blank is no line break. -/
theorem not_isBreak_of_isBlank (c : Char) (h : isBlank c = true) : isBreak c = false := by
  refine isBreak_eq_false ?_ ?_
  all_goals
    rintro rfl
    exact absurd h (by decide)

/-- A digit is no line break. -/
theorem not_isBreak_of_isDigit (c : Char) (h : isDigit c = true) : isBreak c = false :=
  (classes_of_isDigit h).1

/-- No line break goes on with a name. -/
theorem not_isBreak_of_isNameContinue (c : Char) (h : isNameContinue c = true) :
    isBreak c = false := by
  refine isBreak_eq_false ?_ ?_
  all_goals
    rintro rfl
    exact absurd h (by decide +kernel)

section Scanners

variable (text : List Char)

/-- A fraction is found within the line. -/
theorem fraction_line : fraction (line text) = fraction text := by
  have hpoint : isBreak '.' = false := by decide
  match text with
  | [] => rfl
  | c :: rest =>
    by_cases hc : c = '.'
    · rw [hc, line_cons hpoint, fraction, fraction, takeWhile_line not_isBreak_of_isDigit]
    · cases hbreak : isBreak c with
      | false => simp [line_cons hbreak, fraction, hc]
      | true => simp [line_of_isBreak hbreak, fraction, hc]

/-- A sign is found within the line. -/
theorem sign_line : sign (line text) = sign text := by
  cases text with
  | nil => rfl
  | cons c rest =>
    cases hbreak : isBreak c with
    | false => rw [line_cons hbreak, sign, sign]
    | true =>
      have hne : ¬(c = '+' ∨ c = '-') := by
        rintro (rfl | rfl)
        all_goals exact absurd hbreak (by decide)
      simp [line_of_isBreak hbreak, sign, hne]

/-- A power of ten is found within the line. -/
theorem exponent_line : exponent (line text) = exponent text := by
  cases text with
  | nil => rfl
  | cons c rest =>
    cases hbreak : isBreak c with
    | true =>
      have hne : ¬(c = 'e' ∨ c = 'E') := by
        rintro (rfl | rfl)
        all_goals exact absurd hbreak (by decide)
      simp [line_of_isBreak hbreak, exponent, hne]
    | false =>
      have hsign : (sign rest).length ≤ (line rest).length := by
        rw [← sign_line]
        exact (isPrefix_sign _).length_le
      rw [line_cons hbreak, exponent, exponent, sign_line, drop_line hsign,
        takeWhile_line not_isBreak_of_isDigit]

/-- A number goes on within the line. -/
theorem numberTail_line : numberTail (line text) = numberTail text := by
  have hdigits := takeWhile_line not_isBreak_of_isDigit text
  have hrun : (text.takeWhile isDigit).length ≤ (line text).length := by
    rw [← hdigits]
    exact (List.takeWhile_prefix _).length_le
  have hpoint (t : List Char) : (fraction t).length ≤ (line t).length := by
    rw [← fraction_line]
    exact (isPrefix_fraction _).length_le
  simp only [numberTail, hdigits, drop_line hrun, fraction_line, drop_line (hpoint _),
    exponent_line]

variable {text}

/-- A string in single quotes, or in none that close it, ends with its line. -/
theorem string_line (h : text.take 2 ≠ ['"', '"']) : string (line text) = string text := by
  have hrun : (text.takeWhile fun c => c ≠ '"' && !isBreak c).length ≤ (line text).length := by
    rw [← takeWhile_line (by simp)]
    exact (List.takeWhile_prefix _).length_le
  rw [string, string, if_neg h, if_neg fun hline => h ((take_two_line text).mp hline)]
  simp only [takeWhile_line (p := fun c => c ≠ '"' && !isBreak c) (by simp), drop_line hrun,
    head?_line (c := '"') (by decide)]

end Scanners

section First

variable {c : Char} {rest rest' : List Char}

/-- A lexeme that is no line break and no text in three quotes is read from its line. -/
theorem first_line (hc : isBreak c = false) (hquoted : ¬(c = '"' ∧ rest.take 2 = ['"', '"'])) :
    first c (line rest) = first c rest := by
  have hfirst := firstOf_first c rest
  refine first_eq_iff.mpr ?_
  generalize first c rest = l at hfirst
  have hbreak {p : Char → Bool} (hp : ∀ c, p c = true → isBreak c = false) :
      rest.takeWhile p = (line rest).takeWhile p := (takeWhile_line hp rest).symm
  have hslash := head?_line (c := '/') (by decide) rest
  have hdigit := any_head?_line not_isBreak_of_isDigit rest
  have hname := any_head?_line (p := isNameStart)
    (fun c h => not_isBreak_of_isNameContinue c (isNameContinue_of_isNameStart h)) rest
  cases hfirst with
  | feedReturn hreturn => exact absurd hc (by rw [hreturn]; decide)
  | lineBreak hbreak => exact absurd hbreak (by simp [hc])
  | blanks hblank =>
    rw [hbreak not_isBreak_of_isBlank]
    exact .blanks hblank
  | comment hcomment =>
    rw [hbreak (p := (!isBreak ·)) (by simp)]
    exact .comment (by rwa [hslash])
  | quoted hquote =>
    rw [← string_line fun h => hquoted ⟨hquote, h⟩]
    exact .quoted hquote
  | number hnumber =>
    rw [← numberTail_line]
    exact .number (by rwa [hdigit])
  | directive hat hstart =>
    rw [hbreak not_isBreak_of_isNameContinue]
    exact .directive hat (hname.trans hstart)
  | name hstart =>
    rw [hbreak not_isBreak_of_isNameContinue]
    exact .name hstart
  | punctuation hmark => exact .punctuation hmark
  | skipped hbreak hblank hcomment hquote hnumber hdirective hstart hmark =>
    exact .skipped hbreak hblank (by rwa [hslash]) hquote (by rwa [hdigit]) (by rwa [hname]) hstart
      hmark

/-- The first lexeme depends on the line alone, unless it can span several. -/
theorem first_eq_of_line_eq (hc : isBreak c = false)
    (hquoted : ¬(c = '"' ∧ rest.take 2 = ['"', '"'])) (h : line rest = line rest') :
    first c rest = first c rest' := by
  rw [← first_line hc hquoted, h]
  refine first_line hc ?_
  rwa [← take_two_line, ← h, take_two_line]

/-- No lexeme contains a line break, unless it is one or can span several lines. -/
theorem isBreak_eq_false_of_mem_first (hc : isBreak c = false)
    (hquoted : ¬(c = '"' ∧ rest.take 2 = ['"', '"'])) :
    ∀ d ∈ (first c rest).text, isBreak d = false := by
  intro d hd
  rw [← first_line hc hquoted] at hd
  rcases List.mem_cons.mp ((isPrefix_first_text c (line rest)).subset hd) with rfl | hline
  · exact hc
  · exact isBreak_eq_false_of_mem_line hline

end First

end Lexeme

/-! ## Line breaks -/

/-- A line feed is a lexeme by itself. -/
theorem first_feed (later : List Char) : Lexeme.first '\n' later = ⟨.newline, ['\n'], none⟩ :=
  Lexeme.first_eq_iff.mpr (.lineBreak rfl (by simp))

/-- A carriage return and a line feed are one lexeme. -/
theorem first_return_feed (later : List Char) :
    Lexeme.first '\r' ('\n' :: later) = ⟨.newline, ['\r', '\n'], none⟩ :=
  Lexeme.first_eq_iff.mpr (.feedReturn rfl rfl)

end WorldDoc
