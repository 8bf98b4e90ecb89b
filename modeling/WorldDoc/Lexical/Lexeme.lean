import WorldDoc.Lexical.Character
import WorldDoc.Syntax.Kind

/-!
# Lexemes

A text is cut into lexemes without loss: white space, line breaks and comments are lexemes too, and
so is each character that begins nothing. Lexemes know their kind and their characters but not where
they stand, so that two texts can be compared whatever lies between their lexemes.

`first` reads one lexeme off the front of a text. It never fails and always takes at least one
character. `lexemes` repeats it to the end.
-/

namespace WorldDoc

/-- What can be wrong with a lexeme. -/
inductive LexicalFault where
  | unterminatedString
  | unexpectedCharacter
  deriving DecidableEq, Repr

/-- A piece of text that belongs together. -/
structure Lexeme where
  kind : TokenKind
  text : List Char
  fault : Option LexicalFault := none
  deriving DecidableEq, Repr

namespace Lexeme

open Lexical

/-- The fraction at the head of a text: a point and at least one digit. -/
def fraction : List Char → List Char
  | '.' :: rest =>
    let digits := rest.takeWhile isDigit
    if digits.isEmpty then [] else '.' :: digits
  | _ => []

/-- The sign at the head of a text, if it begins with one. -/
def sign : List Char → List Char
  | c :: _ => if c = '+' ∨ c = '-' then [c] else []
  | [] => []

/-- The exponent at the head of a text: the letter E, perhaps a sign, and at least one digit. -/
def exponent : List Char → List Char
  | e :: rest =>
    if e = 'e' ∨ e = 'E' then
      let digits := (rest.drop (sign rest).length).takeWhile isDigit
      if digits.isEmpty then [] else e :: (sign rest ++ digits)
    else []
  | [] => []

/-- What follows the first character of a number: more digits, a fraction, an exponent. -/
def numberTail (text : List Char) : List Char :=
  let digits := text.takeWhile isDigit
  let afterDigits := text.drop digits.length
  let point := fraction afterDigits
  digits ++ (point ++ exponent (afterDigits.drop point.length))

/-- How many characters of a text go by until the first three quotes in a row have gone by, counted
on from `passed`. -/
def throughQuotes (passed : Nat) : List Char → Option Nat
  | [] => none
  | c :: rest =>
    if c = '"' ∧ rest.take 2 = ['"', '"'] then some (passed + 3)
    else throughQuotes (passed + 1) rest

/-- A string literal, from the text after its first quote. Three quotes open a text of any number of
lines that three quotes close; one quote opens a text within one line. Either goes on to the end of
what it may span if nothing closes it. -/
def string (rest : List Char) : Lexeme :=
  if rest.take 2 = ['"', '"'] then
    match throughQuotes 2 (rest.drop 2) with
    | some length => ⟨.string, '"' :: rest.take length, none⟩
    | none => ⟨.string, '"' :: rest, some .unterminatedString⟩
  else
    let body := rest.takeWhile fun c => c ≠ '"' && !isBreak c
    if (rest.drop body.length).head? = some '"' then ⟨.string, '"' :: (body ++ ['"']), none⟩
    else ⟨.string, '"' :: body, some .unterminatedString⟩

/-- The kind of a name: two of them are the words for truth values. -/
def nameKind (text : List Char) : TokenKind :=
  if text = "true".toList then .trueWord
  else if text = "false".toList then .falseWord
  else .identifier

/-- The kind of a punctuation mark. -/
def punctuation? : Char → Option TokenKind
  | ':' => some .colon
  | ',' => some .comma
  | '\x7b' => some .lbrace
  | '\x7d' => some .rbrace
  | '[' => some .lbracket
  | ']' => some .rbracket
  | _ => none

/-- The first lexeme of the text that begins with `c` and goes on with `rest`. -/
def first (c : Char) (rest : List Char) : Lexeme :=
  if isBreak c then
    if c = '\r' ∧ rest.head? = some '\n' then ⟨.newline, ['\r', '\n'], none⟩
    else ⟨.newline, [c], none⟩
  else if isBlank c then ⟨.whitespace, c :: rest.takeWhile isBlank, none⟩
  else if c = '#' ∨ (c = '/' ∧ rest.head? = some '/') then
    ⟨.comment, c :: rest.takeWhile (!isBreak ·), none⟩
  else if c = '"' then string rest
  else if isDigit c ∨ (c = '-' ∧ rest.head?.any isDigit) then ⟨.number, c :: numberTail rest, none⟩
  else if c = '@' ∧ rest.head?.any isNameStart then
    ⟨.directive, c :: rest.takeWhile isNameContinue, none⟩
  else if isNameStart c then
    let text := c :: rest.takeWhile isNameContinue
    ⟨nameKind text, text, none⟩
  else match punctuation? c with
    | some kind => ⟨kind, [c], none⟩
    | none => ⟨.skipped, [c], some .unexpectedCharacter⟩

/-- A lexeme takes at least one character. -/
theorem first_text_ne_nil (c : Char) (rest : List Char) : (first c rest).text ≠ [] := by
  unfold first string
  grind

/-- What is left after the first lexeme is shorter than the text. -/
theorem drop_first_length_lt (c : Char) (rest : List Char) :
    ((c :: rest).drop (first c rest).text.length).length < (c :: rest).length := by
  have := List.length_pos_iff.mpr (first_text_ne_nil c rest)
  grind

/-- Reads on, with the lexemes so far in `read`, the latest first. -/
def readFrom (read : List Lexeme) : List Char → List Lexeme
  | [] => read.reverse
  | c :: rest =>
    readFrom (first c rest :: read) ((c :: rest).drop (first c rest).text.length)
  termination_by text => text.length
  decreasing_by exact drop_first_length_lt c rest

/-- The lexemes read so far come first, and change nothing about the later ones. -/
theorem readFrom_eq (read : List Lexeme) (text : List Char) :
    readFrom read text = read.reverse ++ readFrom [] text := by
  induction h : text.length using Nat.strongRecOn generalizing read text with
  | ind n ih =>
    cases text with
    | nil => simp [readFrom]
    | cons c rest =>
      have hlt := drop_first_length_lt c rest
      rw [readFrom, readFrom, ih _ (h ▸ hlt) _ _ rfl, ih _ (h ▸ hlt) [first c rest] _ rfl]
      simp

end Lexeme

/-- The lexemes of a text. -/
def lexemes (text : List Char) : List Lexeme := Lexeme.readFrom [] text

/-- An empty text has no lexemes. -/
@[simp] theorem lexemes_nil : lexemes [] = [] := by simp [lexemes, Lexeme.readFrom]

/-- The lexemes of a text are its first one and those of what is left. -/
theorem lexemes_cons (c : Char) (rest : List Char) :
    lexemes (c :: rest) = Lexeme.first c rest ::
      lexemes ((c :: rest).drop (Lexeme.first c rest).text.length) := by
  rw [lexemes, Lexeme.readFrom, Lexeme.readFrom_eq]
  simp [lexemes]

end WorldDoc
