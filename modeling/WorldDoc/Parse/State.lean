import WorldDoc.Lexical.Token
import WorldDoc.Syntax.Tree

/-!
# The state of parsing

Parsing goes forward over the significant tokens of a text. A `State` says what is still ahead,
where the last token taken ended, and what was reported. The steps here are those from which the
grammar routines are made: taking tokens as leaves, taking a token that is expected, reporting at
the current token. Two reports at one place would mostly be about one mistake, so the second is
dropped.
-/

namespace WorldDoc

/-- How deep lists may be nested; at least one level. -/
structure NestingLimit where
  depth : Nat
  one_le_depth : 1 ≤ depth := by omega
  deriving DecidableEq, Repr

namespace NestingLimit

/-- The wording when a number is no nesting limit. -/
def tooSmallMessage : String := "max_nesting_depth must be at least 1"

/-- The limit given by a number, if it is at least one. -/
def ofInt? (n : Int) : Option NestingLimit :=
  if h : 1 ≤ n then some ⟨n.toNat, by omega⟩ else none

/-- How many levels of nesting are left within `depth` lists. A negative depth leaves more levels
than the limit itself. -/
def levelsWithin (limit : NestingLimit) (depth : Int) : Nat := (limit.depth - depth).toNat

/-- The usual limit. -/
def standard : NestingLimit := ⟨64, by omega⟩

end NestingLimit

namespace Parse

/-- What stays the same while a text is parsed. -/
structure Context where
  source : SourceText
  limit : NestingLimit

/-- Where parsing stands: the significant tokens ahead, the end of the last token taken, and the
reports so far, the latest first. -/
structure State where
  ahead : List Token
  offset : Nat
  reports : List Diagnostic
  deriving Repr

namespace State

/-- The state before the first token of a text. -/
def initial (text : List Char) : State := ⟨significantTokens text, 0, []⟩

/-- The kind of the current token; past the last token it is the end of the file. -/
def kind (s : State) : TokenKind :=
  match s.ahead with
  | [] => .eof
  | t :: _ => t.kind

/-- The characters of the current token. -/
def text (s : State) : List Char :=
  match s.ahead with
  | [] => []
  | t :: _ => t.text

/-- The range of the current token. -/
def range (s : State) (c : Context) : TextRange :=
  match s.ahead with
  | [] => .empty c.source.length
  | t :: _ => t.range

/-- Adds a report, unless the latest one starts at the same place. -/
def record (s : State) (d : Diagnostic) : State :=
  match s.reports with
  | [] => { s with reports := [d] }
  | latest :: _ =>
    if latest.range.start = d.range.start then s else { s with reports := d :: s.reports }

/-- Reports a finding at the current token. -/
def report (s : State) (c : Context) (finding : Finding) (message : Option String) : State :=
  s.record (finding.at (s.range c) message)

/-- The leaf for a token. -/
def leafOf (c : Context) (t : Token) : SyntaxTree := .leaf c.source (.token t.kind) t.range

/-- The state after the next `n` tokens, or after all that are left. -/
def skip (s : State) (n : Nat) : State where
  ahead := s.ahead.drop n
  offset := ((s.ahead.take n).getLast?.map Token.stop).getD s.offset
  reports := s.reports

/-- The leaves for the next `n` tokens. -/
def leaves (s : State) (c : Context) (n : Nat) : List SyntaxTree := (s.ahead.take n).map (leafOf c)

/-- The node of a kind over the next `n` tokens, and the state after them. -/
def wrap (s : State) (c : Context) (kind : NodeKind) (n : Nat) : SyntaxTree × State :=
  (.branch c.source (.node kind) s.offset (s.leaves c n), s.skip n)

/-- Takes the current token if it has the given kind. -/
def accept (s : State) (c : Context) (kind : TokenKind) : Option SyntaxTree × State :=
  match s.ahead with
  | [] => (none, s)
  | t :: _ => if t.kind = kind then (some (leafOf c t), s.skip 1) else (none, s)

/-- Takes the current token if it has the kind that is expected, and reports it otherwise. -/
def expect (s : State) (c : Context) (kind : TokenKind) : Option SyntaxTree × State :=
  match s.accept c kind with
  | (some leaf, next) => (some leaf, next)
  | (none, same) =>
    (none, same.report c .expectedToken s!"Expected {kind.display}, found {s.kind.display}")

/-- To record a report leaves the tokens ahead alone. -/
@[simp] theorem record_ahead (s : State) (d : Diagnostic) : (s.record d).ahead = s.ahead := by
  unfold record
  grind

/-- To report a finding leaves the tokens ahead alone. -/
@[simp] theorem report_ahead (s : State) (c : Context) (f : Finding) (m : Option String) :
    (s.report c f m).ahead = s.ahead := record_ahead _ _

/-- Tokens that are skipped are no longer ahead. -/
@[simp] theorem skip_ahead (s : State) (n : Nat) : (s.skip n).ahead = s.ahead.drop n := rfl

/-- Taking a token that may be missing uses up no tokens but those ahead. -/
theorem accept_ahead_length_le (s : State) (c : Context) (kind : TokenKind) :
    (s.accept c kind).2.ahead.length ≤ s.ahead.length := by
  unfold accept
  grind [skip_ahead]

/-- Taking a token that is expected uses up no tokens but those ahead. -/
theorem expect_ahead_length_le (s : State) (c : Context) (kind : TokenKind) :
    (s.expect c kind).2.ahead.length ≤ s.ahead.length := by
  have := accept_ahead_length_le s c kind
  unfold expect
  grind [report_ahead]

end State

end Parse

end WorldDoc
