import WorldDoc.Number.Binary64

/-!
# Literals

How the text of a literal is read. Strings lose one layer of quotes and keep everything between them
as it stands. Numbers are decimal, with an optional minus sign, fraction and exponent, and become
the nearest binary number. There are two words for truth values. A text that is no literal of its
kind has no value.

A literal is tested as a whole and by itself: nothing here asks how the lexer came to cut it off.
-/

namespace WorldDoc

namespace Literal

/-- Three quotes. -/
def tripleQuote : List Char := ['"', '"', '"']

/-- Whether a text is long enough to begin and to end with `quotes`, and does. -/
def isQuotedBy (quotes text : List Char) : Bool :=
  2 * quotes.length ≤ text.length && text.take quotes.length == quotes &&
    text.drop (text.length - quotes.length) == quotes

/-- The characters between `width` characters at either end. -/
def between (width : Nat) (text : List Char) : List Char :=
  (text.drop width).take (text.length - 2 * width)

/-- The characters within the quotes of a string literal; three quotes go before one. -/
def string? (text : List Char) : Option (List Char) :=
  if isQuotedBy tripleQuote text then some (between 3 text)
  else if isQuotedBy ['"'] text then some (between 1 text)
  else none

/-- The truth value that a word stands for. -/
def boolean? (text : List Char) : Option Bool :=
  if text = "true".toList then some true
  else if text = "false".toList then some false
  else none

/-- A decimal number: its sign, its digits before and after the point, and its power of ten. -/
structure Decimal where
  negative : Bool
  whole : List Char
  fraction : List Char
  exponent : Int
  deriving DecidableEq, Repr

/-- The number that digits write. -/
def natOfDigits (digits : List Char) : Nat := digits.foldl (fun n d => 10 * n + (d.toNat - 48)) 0

/-- Whether a character is one of the ten digits of decimal numbers. -/
def isDigit (c : Char) : Bool := '0' ≤ c && c ≤ '9'

/-- The digits at the head of a text, at least one, and what stands behind them. -/
def digits? (text : List Char) : Option (List Char × List Char) :=
  let digits := text.takeWhile isDigit
  if digits.isEmpty then none else some (digits, text.dropWhile isDigit)

/-- The digits of a fraction and what stands behind it. A text that does not begin with a point has
no fraction; behind a point there has to be a digit. -/
def fraction? : List Char → Option (List Char × List Char)
  | '.' :: rest => digits? rest
  | text => some ([], text)

/-- The number that a text of digits alone writes. -/
def natural? (text : List Char) : Option Nat :=
  if !text.isEmpty && text.all isDigit then some (natOfDigits text) else none

/-- The integer that a text of digits writes, perhaps with a sign in front. -/
def integer? : List Char → Option Int
  | '-' :: digits => (natural? digits).map fun n : Nat => -(n : Int)
  | '+' :: digits => (natural? digits).map fun n : Nat => (n : Int)
  | digits => (natural? digits).map fun n : Nat => (n : Int)

/-- The power of ten that the end of a number writes, from the letter E on. Without one it is
zero. -/
def exponent? : List Char → Option Int
  | [] => some 0
  | letter :: rest => if letter = 'e' ∨ letter = 'E' then integer? rest else none

/-- Whether a text begins with a minus sign, and the text behind it. -/
def splitSign : List Char → Bool × List Char
  | '-' :: rest => (true, rest)
  | text => (false, text)

/-- The decimal number that a text writes, if the whole of it does. -/
def decimal? (text : List Char) : Option Decimal := do
  let (negative, unsigned) := splitSign text
  let (whole, behindWhole) ← digits? unsigned
  let (fraction, behindFraction) ← fraction? behindWhole
  let exponent ← exponent? behindFraction
  return ⟨negative, whole, fraction, exponent⟩

/-- The binary number nearest to a decimal one. -/
def Decimal.toBinary64 (d : Decimal) : Binary64 :=
  let digits := d.whole ++ d.fraction
  .ofDecimal d.negative (natOfDigits digits) digits.length (d.exponent - d.fraction.length)

/-- The number that a text writes. -/
def number? (text : List Char) : Option Binary64 := (decimal? text).map Decimal.toBinary64

end Literal

end WorldDoc
