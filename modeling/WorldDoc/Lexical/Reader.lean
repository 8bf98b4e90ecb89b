import WorldDoc.Lexical.Token

/-!
# Reading tokens one by one

A `TokenReader` stands among the tokens of a text: some were read, the others are ahead. At the end
it yields the end of the file as often as it is asked. It knows what was wrong with the tokens read
so far, and nothing yet of those ahead.
-/

namespace WorldDoc

/-- A place among the tokens of a text: the length of the text, the tokens read, the latest first,
and the tokens ahead. -/
structure TokenReader where
  length : Nat
  read : List Token
  ahead : List Token

namespace TokenReader

/-- A reader before the first token of a text. -/
def ofText (text : List Char) : TokenReader := ⟨text.length, [], tokens text⟩

/-- Reads the next token of any kind. -/
def next (r : TokenReader) : Token × TokenReader :=
  match r.ahead with
  | [] => (.endOfFile r.length, r)
  | t :: later => (t, { r with read := t :: r.read, ahead := later })

/-- Reads up to and including the next token that the parser sees. -/
def nextSignificant (r : TokenReader) : Token × TokenReader :=
  next {
    length := r.length
    read := (r.ahead.takeWhile fun t => !t.isSignificant).reverse ++ r.read
    ahead := r.ahead.dropWhile fun t => !t.isSignificant }

/-- The offset that reading has come to. -/
def position (r : TokenReader) : Nat := (r.read.head?.map Token.stop).getD 0

/-- Whether the whole text has been read. -/
def atEnd (r : TokenReader) : Bool := r.length ≤ r.position

/-- What was wrong with the tokens read. -/
def diagnostics (r : TokenReader) : List Diagnostic := r.read.reverse.filterMap Token.diagnostic?

end TokenReader

end WorldDoc
