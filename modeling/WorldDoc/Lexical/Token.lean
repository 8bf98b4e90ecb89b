import WorldDoc.Lexical.Lexeme
import WorldDoc.Diagnostic.Basic

/-!
# Tokens

A token is a lexeme at its place in the text. The tokens of a text stand side by side: each starts
where the one before it stopped. One more token, of no length, marks the end of the file. What is
wrong with a token's lexeme becomes a diagnostic at the token's range.
-/

namespace WorldDoc

/-- A lexeme and the offset at which it starts. -/
structure Token extends Lexeme where
  start : Nat
  deriving DecidableEq, Repr

namespace Token

/-- The offset just after the token. -/
def stop (t : Token) : Nat := t.start + t.text.length

/-- The characters that the token takes. -/
def range (t : Token) : TextRange where
  start := t.start
  stop := t.stop
  start_le_stop := Nat.le_add_right _ _

/-- The range of a token begins where the token stands. -/
@[simp] theorem range_start (t : Token) : t.range.start = t.start := rfl

/-- The range of a token ends behind its last character. -/
@[simp] theorem range_stop (t : Token) : t.range.stop = t.stop := rfl

/-- The token at the end of a text. -/
def endOfFile (length : Nat) : Token := ⟨⟨.eof, [], none⟩, length⟩

/-- Whether the parser sees the token. -/
def isSignificant (t : Token) : Bool := !t.kind.isTrivia

/-- The diagnostic of a token whose lexeme is at fault. -/
def diagnostic? (t : Token) : Option Diagnostic :=
  t.fault.map fun
    | .unterminatedString => Finding.unterminatedString.at t.range
    | .unexpectedCharacter =>
      Finding.unexpectedCharacter.at t.range
        s!"{Finding.unexpectedCharacter.message} Found `{String.ofList t.text}`."

/-- Puts lexemes side by side from `offset` on, behind the tokens in `placed`, the latest first. -/
def placeFrom (placed : List Token) (offset : Nat) : List Lexeme → List Token
  | [] => placed.reverse
  | l :: later => placeFrom (⟨l, offset⟩ :: placed) (offset + l.text.length) later

/-- Lexemes side by side, the first of them at `offset`. -/
def place (offset : Nat) (lexemes : List Lexeme) : List Token := placeFrom [] offset lexemes

/-- The tokens placed so far come first, and change nothing about the later ones. -/
theorem placeFrom_eq (placed : List Token) (offset : Nat) (lexemes : List Lexeme) :
    placeFrom placed offset lexemes = placed.reverse ++ placeFrom [] offset lexemes := by
  induction lexemes generalizing placed offset with
  | nil => simp [placeFrom]
  | cons l later ih => rw [placeFrom, placeFrom, ih, ih [⟨l, offset⟩]]; simp

@[simp] theorem place_nil (offset : Nat) : place offset [] = [] := rfl

/-- The first lexeme stands at the offset, and the others behind its text. -/
@[simp] theorem place_cons (offset : Nat) (l : Lexeme) (later : List Lexeme) :
    place offset (l :: later) = ⟨l, offset⟩ :: place (offset + l.text.length) later := by
  rw [place, placeFrom, placeFrom_eq]
  rfl

end Token

/-- The tokens of a text, without the end of the file. -/
def tokens (text : List Char) : List Token := Token.place 0 (lexemes text)

/-- The tokens of a text that the parser sees. -/
def significantTokens (text : List Char) : List Token := (tokens text).filter Token.isSignificant

/-- What is wrong with the lexemes of a text, in order. -/
def lexicalDiagnostics (text : List Char) : List Diagnostic :=
  (tokens text).filterMap Token.diagnostic?

end WorldDoc
