import WorldDoc.Text.Alphabetic
import WorldDoc.Text.Numeric

/-!
# Characters of the language

The classes by which a world document is cut into lexemes.
-/

namespace WorldDoc.Lexical

/-- The characters that end a line. -/
def isBreak (c : Char) : Bool := c = '\n' || c = '\r'

/-- The blanks within a line: space, tab, zero width no-break space, ideographic space. -/
def isBlank (c : Char) : Bool := c = ' ' || c = '\t' || c = '\ufeff' || c = '\u3000'

/-- The digits that numbers are written with: the ten of ASCII. -/
def isDigit (c : Char) : Bool := '0' ≤ c && c ≤ '9'

/-- A name starts with a letter of any script or a low line. -/
def isNameStart (c : Char) : Bool := CharClass.alphabetic.contains c || c = '_'

/-- A name goes on with letters, characters of numeric value, low lines and hyphens. -/
def isNameContinue (c : Char) : Bool :=
  CharClass.alphabetic.contains c || CharClass.numeric.contains c || c = '_' || c = '-'

end WorldDoc.Lexical
