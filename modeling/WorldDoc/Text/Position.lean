import WorldDoc.Text.Range

/-!
# Lines and columns

A `LineIndex` holds the offset at which each line of a text starts. A line ends after a line feed;
a carriage return before it is the last character of its line, so it moves no column of the next
one. Looking up an offset gives its line and column, both counted from one.
-/

namespace WorldDoc

/-- A line and a column, both counted from one. -/
@[ext] structure LineCol where
  line : Nat
  column : Nat
  deriving DecidableEq, Repr

/-- How a position is written: line, colon, column. -/
def LineCol.display (p : LineCol) : String := s!"{p.line}:{p.column}"

/-- Where the lines of a text start, in increasing order, and how long the text is. -/
structure LineIndex where
  starts : List Nat
  length : Nat
  deriving Repr

namespace LineIndex

/-- The index of a text: its first line starts at offset zero, another one after each line feed. -/
def ofText (text : List Char) : LineIndex where
  starts := 0 :: text.zipIdx.filterMap fun (c, i) => if c = '\n' then some (i + 1) else none
  length := text.length

/-- The number of lines; a text without a line feed has one. -/
def lineCount (index : LineIndex) : Nat := index.starts.length

/-- The offset nearest to `offset` within the text. -/
def clamp (index : LineIndex) (offset : Int) : Nat := min offset.toNat index.length

/-- The line and column of an offset. An offset outside the text counts as its nearest end. -/
def lineCol (index : LineIndex) (offset : Int) : LineCol :=
  let position := index.clamp offset
  let passed := index.starts.takeWhile (· ≤ position)
  ⟨passed.length, position - passed.getLastD 0 + 1⟩

end LineIndex

end WorldDoc
