import WorldDoc.Text.Unprintable

/-!
# Quoted text

Text shown inside a message is quoted so that it stays on one line and can be read back: the quote
mark is the apostrophe unless the text holds an apostrophe and no double quote; the backslash and
the quote mark are written with a backslash before them; tab, line feed and carriage return have
their short forms; any other unprintable character becomes its code in two, four or eight
hexadecimal digits.
-/

namespace WorldDoc.Quoted

/-- The quote mark a text is written with. -/
def mark (text : List Char) : Char :=
  if '\'' ∈ text ∧ '"' ∉ text then '"' else '\''

/-- The low `width` hexadecimal digits of a number, in lower case. -/
def hexDigits : Nat → Nat → List Char
  | 0, _ => []
  | width + 1, n => hexDigits width (n / 16) ++ [Nat.digitChar (n % 16)]

/-- The code of a character: two digits below 0x100, four below 0x10000, eight above. -/
def escapeCode (c : Char) : List Char :=
  if c.toNat < 0x100 then '\\' :: 'x' :: hexDigits 2 c.toNat
  else if c.toNat < 0x10000 then '\\' :: 'u' :: hexDigits 4 c.toNat
  else '\\' :: 'U' :: hexDigits 8 c.toNat

/-- How one character is written between quote marks `quote`. -/
def encodeChar (quote c : Char) : List Char :=
  if c = quote ∨ c = '\\' then ['\\', c]
  else if c = '\t' then ['\\', 't']
  else if c = '\n' then ['\\', 'n']
  else if c = '\r' then ['\\', 'r']
  else if CharClass.unprintable.contains c then escapeCode c
  else [c]

/-- The characters of the quoted form of a text. -/
def encodeChars (text : List Char) : List Char :=
  mark text :: text.flatMap (encodeChar (mark text)) ++ [mark text]

/-- The quoted form of a text. -/
def encode (text : String) : String := String.ofList (encodeChars text.toList)

end WorldDoc.Quoted
