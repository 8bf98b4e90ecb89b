import WorldDoc.Text.DecimalDigit

/-!
# Command-line arguments

The program has one command, `check`, with one file and three flags. Words that begin with a hyphen
are switches, unless they look like negative numbers, hold a blank, or come after the word `--`.
A long switch may be cut short as long as only one switch begins that way.

Words take effect from left to right: help that is asked for ends the reading at once, and so does a
switch that is given a value it does not take. What has no meaning, an unknown switch or a second
file, is found out at the end, and whether the file's name can be one after that. Only a word that
could be short for several switches is refused before all others.
-/

namespace WorldDoc.Command

/-- What a switch asks for. -/
inductive Switch where
  | help
  | noValidate
  | rejectDuplicates
  | verbose
  deriving DecidableEq, Repr

/-- Why the reading of arguments ends without a file to check: help is asked for, the words make no
sense, or the file's name holds a NUL, which no name can. -/
inductive Stop where
  | help
  | usage
  | nulInName
  deriving DecidableEq, Repr

/-- The wording when a name holds a NUL. -/
def Stop.nulMessage : String := "embedded null byte"

/-- What the arguments ask for. -/
structure Invocation where
  file : String
  validate : Bool
  rejectDuplicates : Bool
  verbose : Bool
  deriving DecidableEq, Repr

/-- What a word is to a parser of arguments. A switch may come with a value in the same word. -/
inductive Word where
  | plain (text : String)
  | separator
  | switch (name : String) (meaning : Switch) (value : Option String)
  | unknown
  | ambiguous
  deriving DecidableEq, Repr

/-- The switches that a parser knows, by name. -/
abbrev Switches := List (String × Switch)

/-- The switches before the command. -/
def outerSwitches : Switches := [("-h", .help), ("--help", .help)]

/-- The switches of the command. -/
def checkSwitches : Switches :=
  outerSwitches ++ [("--no-validate", .noValidate), ("--reject-duplicates", .rejectDuplicates),
    ("--verbose", .verbose)]

/-- The text before the first equals sign and, if there is one, the text after it. -/
def splitAtEquals (word : String) : String × Option String :=
  let name := word.toList.takeWhile (· ≠ '=')
  let rest := word.toList.drop name.length
  (String.ofList name, if rest.isEmpty then none else some (String.ofList (rest.drop 1)))

/-- Whether a word is a hyphen and a number without a sign of its own: digits, or any number of
digits, a point and digits. One line feed may come after them. -/
def looksNegative (word : String) : Bool :=
  let isDigit := CharClass.decimalDigit.contains
  match word.toList with
  | '-' :: rest =>
    let body := if rest.getLast? = some '\n' then rest.dropLast else rest
    let whole := body.takeWhile isDigit
    match body.drop whole.length with
    | [] => !whole.isEmpty
    | '.' :: fraction => !fraction.isEmpty && fraction.all isDigit
    | _ => false
  | _ => false

/-- The switches that a word may be short for. A word with two hyphens is compared up to an equals
sign; one with a single hyphen is a letter with its value right behind it. -/
def candidates (known : Switches) (word : String) : List Word :=
  if word.startsWith "--" then
    let (name, value) := splitAtEquals word
    (known.filter fun s => s.1.startsWith name).map fun s => .switch s.1 s.2 value
  else
    let letter := String.ofList (word.toList.take 2)
    let behind := String.ofList (word.toList.drop 2)
    (known.filter fun s => s.1 = letter).map fun s => .switch s.1 s.2 (some behind)

/-- What a word is, if it is neither the separator nor comes after it. -/
def classify (known : Switches) (word : String) : Word :=
  if !word.startsWith "-" ∨ word = "-" then .plain word
  else match known.lookup word with
    | some meaning => .switch word meaning none
    | none =>
      let (name, value) := splitAtEquals word
      match known.lookup name with
      | some meaning => .switch name meaning value
      | none =>
        match candidates known word with
        | [only] => only
        | _ :: _ :: _ => .ambiguous
        | [] => if looksNegative word ∨ word.contains ' ' then .plain word else .unknown

/-- What the words are. The first `--` is the separator and every word after it is plain. -/
def classifyAll (known : Switches) : List String → List Word
  | [] => []
  | word :: later =>
    if word = "--" then .separator :: later.map .plain
    else classify known word :: classifyAll known later

/-- Whether a switch may have a value in its word. No long switch takes one. What follows a letter,
directly or behind an equals sign, is read as the letters of further switches; the only letter there
is asks for help. -/
def valueAllowed (name : String) : Option String → Bool
  | none => true
  | some value => !name.startsWith "--" && value ≠ "" && value.toList.all (· = 'h')

/-- What was read so far: the file, the flags, and whether a word had no meaning. -/
structure Reading where
  file : Option String := none
  noValidate : Bool := false
  rejectDuplicates : Bool := false
  verbose : Bool := false
  meaningless : Bool := false

namespace Reading

/-- Takes a switch into account. -/
def set (r : Reading) : Switch → Except Stop Reading
  | .help => .error .help
  | .noValidate => .ok { r with noValidate := true }
  | .rejectDuplicates => .ok { r with rejectDuplicates := true }
  | .verbose => .ok { r with verbose := true }

/-- What the arguments ask for, once all are read. -/
def conclude (r : Reading) : Except Stop Invocation :=
  match r.file with
  | some file =>
    if r.meaningless then .error .usage
    else if file.contains '\x00' then .error .nulInName
    else .ok ⟨file, !r.noValidate, r.rejectDuplicates, r.verbose⟩
  | none => .error .usage

/-- Reads the words after the command. The separator has a meaning only next to the file. -/
def words (r : Reading) : List Word → Except Stop Reading
  | [] => .ok r
  | .plain text :: .separator :: later =>
    if r.file.isNone then words { r with file := some text } later
    else words { r with meaningless := true } (.separator :: later)
  | .plain text :: later =>
    if r.file.isNone then words { r with file := some text } later
    else words { r with meaningless := true } later
  | .separator :: .plain text :: later =>
    if r.file.isNone then words { r with file := some text } later
    else .ok { r with meaningless := true }
  | .separator :: _ => .ok { r with meaningless := true }
  | .switch name meaning value :: later =>
    if valueAllowed name value then do words (← r.set meaning) later else .error .usage
  | .unknown :: later | .ambiguous :: later => words { r with meaningless := true } later

end Reading

/-- Reads the arguments after the word `check`. -/
def readCheck (arguments : List String) (meaningless : Bool) : Except Stop Invocation :=
  let words := classifyAll checkSwitches arguments
  if words.contains .ambiguous then .error .usage
  else do Reading.conclude (← Reading.words { meaningless := meaningless } words)

/-- Reads arguments up to the command and on. Unknown switches before it are remembered. -/
def readFrom (meaningless : Bool) : List String → Except Stop Invocation
  | [] => .error .usage
  | word :: later =>
    if word = "--" then .error .usage
    else match classify outerSwitches word with
      | .plain command => if command = "check" then readCheck later meaningless else .error .usage
      | .switch name _ value => .error (if valueAllowed name value then .help else .usage)
      | .separator | .unknown | .ambiguous => readFrom true later

/-- What the arguments of the program ask for. -/
def Invocation.ofArguments (arguments : List String) : Except Stop Invocation :=
  readFrom false arguments

end WorldDoc.Command
