import WorldDoc.Proofs.Lexical.Lossless
import WorldDoc.Proofs.Value.Numeral

/-!
# Lexemes are longest matches

The texts of which lexemes are made fall into classes that can be told without the lexer: runs of
blanks, line breaks, comments, numerals, names, directives, quoted strings, punctuation marks. What
the lexer takes at any place is the longest beginning of the text from there on that is of the class
of the lexeme; only a string ends as soon as the quotes that open it close it. A character is
skipped where the text begins with nothing of any class. `Matches` says so, class by class, and
`matches_at_every_token` that the token at a place is the one lexeme that matches there.

## Shape of the proof

For each class there is one lemma about what a text of it begins with (`…_begins`) and one about the
longest of its texts (`longest_…`). As the conditions on the first characters exclude one another,
each branch of the lexer yields a match (`matches_first`), and a match can only come from the branch
of its class (`first_eq_of_matches`). Runs of characters are prefixes of the run that `takeWhile`
finds. A numeral goes on as far as it can because its digits, its fraction and its power of ten do,
one behind the other, and because what comes behind digits is no digit (`prefix_digits`).
-/

namespace WorldDoc

open Lexical

/-! ## Longest and shortest beginnings -/

/-- `found` is the longest beginning of the text with a property. -/
structure Longest (p : List Char → Prop) (text found : List Char) : Prop where
  isPrefix : found <+: text
  holds : p found
  length_le : ∀ other, other <+: text → p other → other.length ≤ found.length

/-- `found` is the shortest beginning of the text with a property. -/
structure Shortest (p : List Char → Prop) (text found : List Char) : Prop where
  isPrefix : found <+: text
  holds : p found
  le_length : ∀ other, other <+: text → p other → found.length ≤ other.length

section Unique

variable {p : List Char → Prop} {text u v : List Char}

/-- Two beginnings of a text that are as long as each other are the same. -/
theorem eq_of_prefix_of_length_eq (hu : u <+: text) (hv : v <+: text) (h : u.length = v.length) :
    u = v :=
  (List.prefix_of_prefix_length_le hu hv h.le).eq_of_length h

/-- There is but one longest beginning with a property. -/
theorem Longest.unique (hu : Longest p text u) (hv : Longest p text v) : u = v :=
  eq_of_prefix_of_length_eq hu.isPrefix hv.isPrefix
    (Nat.le_antisymm (hv.length_le u hu.isPrefix hu.holds) (hu.length_le v hv.isPrefix hv.holds))

/-- There is but one shortest beginning with a property. -/
theorem Shortest.unique (hu : Shortest p text u) (hv : Shortest p text v) : u = v :=
  eq_of_prefix_of_length_eq hu.isPrefix hv.isPrefix
    (Nat.le_antisymm (hu.le_length v hv.isPrefix hv.holds) (hv.le_length u hu.isPrefix hu.holds))

end Unique

namespace Lexeme

/-! ## The classes -/

/-- One blank or more. -/
def IsBlanks (u : List Char) : Prop := u ≠ [] ∧ ∀ c ∈ u, isBlank c = true

/-- A carriage return with a line feed, or one of them alone. -/
def IsLineBreak (u : List Char) : Prop := u = ['\r', '\n'] ∨ u = ['\n'] ∨ u = ['\r']

/-- A number sign or two slashes, and anything within the line. -/
def IsComment (u : List Char) : Prop :=
  (['#'] <+: u ∨ ['/', '/'] <+: u) ∧ ∀ c ∈ u, isBreak c = false

/-- A decimal number: perhaps a minus sign, digits, perhaps a fraction, perhaps a power of ten. -/
def IsNumber (u : List Char) : Prop := ∃ n : Numeral, n.text = u

/-- A character that starts a name and others that go on with it. -/
def IsName (u : List Char) : Prop :=
  ∃ head tail, u = head :: tail ∧ isNameStart head = true ∧ ∀ c ∈ tail, isNameContinue c = true

/-- An at sign and a name. -/
def IsDirective (u : List Char) : Prop := ∃ name, IsName name ∧ u = '@' :: name

/-- A text that quotes open, within the line if it is one quote. -/
def IsOpened (quotes u : List Char) : Prop :=
  quotes <+: u ∧ (quotes = ['"'] → ∀ c ∈ u, isBreak c = false)

/-- A text that quotes open and the same quotes behind them close, within the line if it is one
quote. -/
def IsClosed (quotes u : List Char) : Prop :=
  (∃ content, u = quotes ++ (content ++ quotes)) ∧ (quotes = ['"'] → ∀ c ∈ u, isBreak c = false)

/-- The punctuation marks and the kinds of their tokens. -/
def marks : List (TokenKind × Char) :=
  [(.colon, ':'), (.comma, ','), (.lbrace, '\x7b'), (.rbrace, '\x7d'), (.lbracket, '['),
    (.rbracket, ']')]

/-- A text of some class. A quote begins a string whether it is closed or not. -/
inductive IsLexical (u : List Char) : Prop where
  | blanks (h : IsBlanks u)
  | lineBreak (h : IsLineBreak u)
  | comment (h : IsComment u)
  | number (h : IsNumber u)
  | name (h : IsName u)
  | directive (h : IsDirective u)
  | quoted (h : ['"'] <+: u)
  | mark {kind : TokenKind} {c : Char} (hmark : (kind, c) ∈ marks) (h : u = [c])

/-- `Matches text l`: the lexeme `l` is what its class makes of the beginning of the text. -/
inductive Matches (text : List Char) : Lexeme → Prop where
  | whitespace {u : List Char} (h : Longest IsBlanks text u) : Matches text ⟨.whitespace, u, none⟩
  | newline {u : List Char} (h : Longest IsLineBreak text u) : Matches text ⟨.newline, u, none⟩
  | comment {u : List Char} (h : Longest IsComment text u) : Matches text ⟨.comment, u, none⟩
  | number {u : List Char} (h : Longest IsNumber text u) : Matches text ⟨.number, u, none⟩
  | trueWord (h : Longest IsName text "true".toList) :
    Matches text ⟨.trueWord, "true".toList, none⟩
  | falseWord (h : Longest IsName text "false".toList) :
    Matches text ⟨.falseWord, "false".toList, none⟩
  | identifier {u : List Char} (h : Longest IsName text u) (htrue : u ≠ "true".toList)
    (hfalse : u ≠ "false".toList) : Matches text ⟨.identifier, u, none⟩
  | directive {u : List Char} (h : Longest IsDirective text u) :
    Matches text ⟨.directive, u, none⟩
  | closed {u : List Char} (h : Shortest (IsClosed (openingQuotes text)) text u) :
    Matches text ⟨.string, u, none⟩
  /-- Where the quotes that open a string are not closed it goes on as far as it may. -/
  | unclosed {u : List Char} (hopen : ∀ v, v <+: text → ¬IsClosed (openingQuotes text) v)
    (h : Longest (IsOpened (openingQuotes text)) text u) :
    Matches text ⟨.string, u, some .unterminatedString⟩
  | mark {kind : TokenKind} {c : Char} (hmark : (kind, c) ∈ marks) (h : [c] <+: text) :
    Matches text ⟨kind, [c], none⟩
  | skipped {c : Char} (h : [c] <+: text) (hnone : ∀ u, u <+: text → ¬IsLexical u) :
    Matches text ⟨.skipped, [c], some .unexpectedCharacter⟩

/-! ## What a text of a class begins with -/

section Begins

variable {c : Char} {rest u : List Char}

/-- Blanks begin with a blank. -/
theorem blanks_begins (hu : IsBlanks u) (h : u <+: c :: rest) : isBlank c = true := by
  obtain ⟨hne, hall⟩ := hu
  obtain ⟨d, later, rfl⟩ := List.exists_cons_of_ne_nil hne
  obtain ⟨rfl, -⟩ := List.cons_prefix_cons.mp h
  exact hall d List.mem_cons_self

/-- A line break begins with a line break character. -/
theorem lineBreak_begins (hu : IsLineBreak u) (h : u <+: c :: rest) : isBreak c = true := by
  rcases hu with rfl | rfl | rfl
  all_goals
    obtain ⟨rfl, -⟩ := List.cons_prefix_cons.mp h
    rfl

/-- A comment begins with a number sign or two slashes. -/
theorem comment_begins (hu : IsComment u) (h : u <+: c :: rest) :
    c = '#' ∨ (c = '/' ∧ rest.head? = some '/') := by
  rcases hu.1 with hhash | hslashes
  · exact Or.inl (List.cons_prefix_cons.mp (hhash.trans h)).1.symm
  · obtain ⟨rfl, hrest⟩ := List.cons_prefix_cons.mp (hslashes.trans h)
    obtain ⟨later, rfl⟩ := hrest
    exact Or.inr ⟨rfl, rfl⟩

/-- Digits begin with a digit. -/
theorem digits_begin (d : Digits) (later : List Char) (h : d.chars ++ later <+: rest) :
    rest.head?.any isDigit = true := by
  obtain ⟨behind, rfl⟩ := h
  rw [List.append_assoc]
  exact Numeral.Digits.head?_append d _

/-- A number begins with a digit, or with a hyphen and a digit. -/
theorem number_begins (hu : IsNumber u) (h : u <+: c :: rest) :
    isDigit c = true ∨ (c = '-' ∧ rest.head?.any isDigit = true) := by
  obtain ⟨⟨negative, whole, fraction, power⟩, rfl⟩ := hu
  cases negative with
  | true =>
    obtain ⟨rfl, hrest⟩ := List.cons_prefix_cons.mp h
    exact Or.inr ⟨rfl, digits_begin whole _ hrest⟩
  | false => exact Or.inl (digits_begin whole _ h)

/-- A name begins with a character that starts one. -/
theorem name_begins (hu : IsName u) (h : u <+: c :: rest) : isNameStart c = true := by
  obtain ⟨head, tail, rfl, hhead, -⟩ := hu
  obtain ⟨rfl, -⟩ := List.cons_prefix_cons.mp h
  exact hhead

/-- A directive begins with an at sign and a character that starts a name. -/
theorem directive_begins (hu : IsDirective u) (h : u <+: c :: rest) :
    c = '@' ∧ rest.head?.any isNameStart = true := by
  obtain ⟨name, hname, rfl⟩ := hu
  obtain ⟨rfl, hrest⟩ := List.cons_prefix_cons.mp h
  obtain ⟨head, tail, rfl, hhead, -⟩ := hname
  obtain ⟨behind, rfl⟩ := hrest
  exact ⟨rfl, hhead⟩

/-- The punctuation marks are those that the lexer knows. -/
theorem mem_marks_iff {kind : TokenKind} : (kind, c) ∈ marks ↔ punctuation? c = some kind := by
  constructor
  · intro h
    simp only [marks, List.mem_cons, Prod.mk.injEq, List.not_mem_nil, or_false] at h
    rcases h with ⟨rfl, rfl⟩ | ⟨rfl, rfl⟩ | ⟨rfl, rfl⟩ | ⟨rfl, rfl⟩ | ⟨rfl, rfl⟩ | ⟨rfl, rfl⟩
    all_goals rfl
  · intro h
    unfold punctuation? at h
    split at h
    all_goals first
      | contradiction
      | obtain rfl := Option.some.inj h
        decide

end Begins

/-! ## Runs of characters -/

section Runs

variable {c : Char} {rest u : List Char} {p : Char → Bool}

/-- A beginning whose characters all have a property is part of the run of such characters. -/
theorem prefix_takeWhile (h : u <+: rest) (hu : ∀ d ∈ u, p d = true) : u <+: rest.takeWhile p := by
  obtain ⟨later, rfl⟩ := h
  rw [List.takeWhile_append_of_pos hu]
  exact List.prefix_append u _

/-- A character and the run behind it begin the text. -/
theorem prefix_run (rest : List Char) : c :: rest.takeWhile p <+: c :: rest :=
  List.cons_prefix_cons.mpr ⟨rfl, List.takeWhile_prefix p⟩

/-- No longer run of characters behind the first one is a beginning of the text. -/
theorem length_le_run {head : Char} {tail : List Char} (h : head :: tail <+: c :: rest)
    (htail : ∀ d ∈ tail, p d = true) :
    (head :: tail).length ≤ (c :: rest.takeWhile p).length := by
  have hrun := (prefix_takeWhile (List.cons_prefix_cons.mp h).2 htail).length_le
  simpa only [List.length_cons, Nat.add_le_add_iff_right] using hrun

/-- The characters of a run have the property that it is a run of. -/
theorem of_mem_takeWhile {d : Char} (h : d ∈ rest.takeWhile p) : p d = true :=
  List.all_eq_true.mp List.all_takeWhile d h

/-- The longest blanks are the run of them. -/
theorem longest_blanks (hc : isBlank c = true) :
    Longest IsBlanks (c :: rest) (c :: rest.takeWhile isBlank) where
  isPrefix := prefix_run rest
  holds := ⟨List.cons_ne_nil _ _, List.forall_mem_cons.mpr ⟨hc, fun _ => of_mem_takeWhile⟩⟩
  length_le := by
    rintro other hother ⟨hne, hall⟩
    obtain ⟨head, tail, rfl⟩ := List.exists_cons_of_ne_nil hne
    exact length_le_run hother (List.forall_mem_cons.mp hall).2

/-- The longest comment goes on to the end of the line. -/
theorem longest_comment (hc : c = '#' ∨ (c = '/' ∧ rest.head? = some '/')) :
    Longest IsComment (c :: rest) (c :: rest.takeWhile (!isBreak ·)) where
  isPrefix := prefix_run rest
  holds := by
    have hrun : ∀ d ∈ rest.takeWhile (!isBreak ·), isBreak d = false := fun d hd => by
      simpa using of_mem_takeWhile hd
    rcases hc with rfl | ⟨rfl, hhead⟩
    · exact ⟨Or.inl (List.prefix_append ['#'] _), List.forall_mem_cons.mpr ⟨by decide, hrun⟩⟩
    · obtain ⟨later, rfl⟩ := List.head?_eq_some_iff.mp hhead
      refine ⟨Or.inr ?_, List.forall_mem_cons.mpr ⟨by decide, hrun⟩⟩
      rw [List.takeWhile_cons_of_pos (by decide)]
      exact List.prefix_append ['/', '/'] _
  length_le := by
    rintro other hother ⟨hbegin, hall⟩
    obtain ⟨head, tail, rfl⟩ := List.exists_cons_of_ne_nil (l := other) fun hnil => by
      subst hnil
      simp at hbegin
    exact length_le_run hother fun d hd => by simp [hall d (List.mem_cons_of_mem _ hd)]

/-- The longest name is the run of characters that go on with one. -/
theorem longest_name (hc : isNameStart c = true) :
    Longest IsName (c :: rest) (c :: rest.takeWhile isNameContinue) where
  isPrefix := prefix_run rest
  holds := ⟨c, _, rfl, hc, fun _ => of_mem_takeWhile⟩
  length_le := by
    rintro _ hother ⟨head, tail, rfl, -, htail⟩
    exact length_le_run hother htail

/-- The longest directive is an at sign and the longest name. -/
theorem longest_directive (hrest : rest.head?.any isNameStart = true) :
    Longest IsDirective ('@' :: rest) ('@' :: rest.takeWhile isNameContinue) where
  isPrefix := prefix_run rest
  holds := by
    cases rest with
    | nil => exact absurd hrest (by simp)
    | cons head later =>
      refine ⟨_, ⟨head, later.takeWhile isNameContinue, ?_, hrest, fun _ => of_mem_takeWhile⟩, rfl⟩
      exact List.takeWhile_cons_of_pos (isNameContinue_of_isNameStart hrest)
  length_le := by
    rintro _ hother ⟨_, ⟨head, tail, rfl, hhead, htail⟩, rfl⟩
    exact length_le_run hother
      (List.forall_mem_cons.mpr ⟨isNameContinue_of_isNameStart hhead, htail⟩)

/-- A carriage return takes a line feed along. -/
theorem longest_feedReturn : Longest IsLineBreak ('\r' :: '\n' :: rest) ['\r', '\n'] where
  isPrefix := List.prefix_append ['\r', '\n'] rest
  holds := Or.inl rfl
  length_le := by
    rintro _ - (rfl | rfl | rfl)
    all_goals decide

/-- A line break character is a line break. -/
theorem isLineBreak_of_isBreak (hc : isBreak c = true) : IsLineBreak [c] := by
  rw [isBreak, Bool.or_eq_true, decide_eq_true_eq, decide_eq_true_eq] at hc
  rcases hc with rfl | rfl
  · exact Or.inr (Or.inl rfl)
  · exact Or.inr (Or.inr rfl)

/-- A line break character is the longest line break, unless it is a carriage return before a line
feed. -/
theorem longest_lineBreak (hc : isBreak c = true) (hrest : ¬(c = '\r' ∧ rest.head? = some '\n')) :
    Longest IsLineBreak (c :: rest) [c] where
  isPrefix := List.prefix_append [c] rest
  holds := isLineBreak_of_isBreak hc
  length_le := by
    rintro _ hother (rfl | rfl | rfl)
    · obtain ⟨rfl, later, rfl⟩ := List.cons_prefix_cons.mp hother
      exact absurd ⟨rfl, rfl⟩ hrest
    · exact Nat.le_refl _
    · exact Nat.le_refl _

end Runs

/-! ## Numbers -/

section Numbers

open Numeral

/-- Digits and what comes behind them, if that does not begin with a digit, are the beginning of a
text only as all its digits and what comes behind those, unless nothing comes behind them. -/
theorem prefix_digits {digits later text : List Char} (hdigits : ∀ c ∈ digits, isDigit c = true)
    (hlater : ∀ c ∈ later.head?, isDigit c = false) (h : digits ++ later <+: text) :
    (later = [] ∧ digits <+: text.takeWhile isDigit) ∨
      (digits = text.takeWhile isDigit ∧ later <+: text.drop (text.takeWhile isDigit).length) := by
  cases later with
  | nil =>
    rw [List.append_nil] at h
    exact Or.inl ⟨rfl, prefix_takeWhile h hdigits⟩
  | cons c later =>
    obtain ⟨behind, rfl⟩ := h
    have hrun : (digits ++ (c :: later) ++ behind).takeWhile isDigit = digits := by
      rw [List.append_assoc]
      exact takeWhile_isDigit hdigits hlater
    rw [hrun, List.append_assoc, List.drop_left]
    exact Or.inr ⟨rfl, List.prefix_append _ _⟩

/-- What is put behind digits goes on behind all digits of the text. -/
theorem prefix_digits_append {digits later text : List Char} {scan : List Char → List Char}
    (hdigits : ∀ c ∈ digits, isDigit c = true) (hlater : ∀ c ∈ later.head?, isDigit c = false)
    (hscan : ∀ behind, later <+: behind → later <+: scan behind) (h : digits ++ later <+: text) :
    digits ++ later <+:
      text.takeWhile isDigit ++ scan (text.drop (text.takeWhile isDigit).length) := by
  rcases prefix_digits hdigits hlater h with ⟨rfl, hrun⟩ | ⟨rfl, hbehind⟩
  · rw [List.append_nil]
    exact hrun.trans (List.prefix_append _ _)
  · exact (List.prefix_append_right_inj _).mpr (hscan _ hbehind)

/-- A power of ten begins neither with a digit nor with a point. -/
theorem powerText_begins (power : Option PowerOfTen) :
    ∀ c ∈ (powerText power).head?, isDigit c = false ∧ c ≠ '.' := by
  have h := head?_powerText power ends_nil
  rwa [List.append_nil] at h

/-- A power of ten at the head of a text is part of the one that the lexer finds there. -/
theorem prefix_exponent {power : Option PowerOfTen} {text : List Char}
    (h : powerText power <+: text) : powerText power <+: exponent text := by
  cases power with
  | none => exact List.nil_prefix
  | some p =>
    obtain ⟨behind, rfl⟩ := h
    have htext : powerText (some p) ++ behind =
        p.letter :: (p.sign.toList ++ (p.digits.chars ++ behind)) := by
      simp [powerText, PowerOfTen.text]
    rw [htext, exponent, if_pos p.letter_eq, sign_append p.sign_eq, List.drop_left,
      List.takeWhile_append_of_pos p.digits.isDigit_of_mem]
    have hne : (p.digits.chars ++ behind.takeWhile isDigit).isEmpty = false := by
      simp [p.digits.ne_nil]
    simp only [hne, Bool.false_eq_true, if_false]
    rw [← List.append_assoc, ← List.cons_append]
    exact List.prefix_append _ _

/-- So are a fraction and a power of ten. -/
theorem prefix_fraction {fraction : Option Digits} {power : Option PowerOfTen} {text : List Char}
    (h : fractionText fraction ++ powerText power <+: text) :
    fractionText fraction ++ powerText power <+:
      Lexeme.fraction text ++ exponent (text.drop (Lexeme.fraction text).length) := by
  cases fraction with
  | none =>
    cases power with
    | none => exact List.nil_prefix
    | some p =>
      obtain ⟨behind, rfl⟩ := h
      have hletter := (powerText_begins (some p) p.letter rfl).2
      have hfraction : Lexeme.fraction (fractionText none ++ powerText (some p) ++ behind) = [] :=
        fraction_of_head?_ne (by rintro c ⟨⟩; exact hletter)
      rw [hfraction]
      show powerText (some p) <+: exponent (powerText (some p) ++ behind)
      exact prefix_exponent (List.prefix_append _ _)
  | some digits =>
    obtain ⟨later, rfl, hlater⟩ : ∃ later, text = '.' :: later ∧
        digits.chars ++ powerText power <+: later := by
      cases text with
      | nil => exact absurd (List.prefix_nil.mp h) (by simp [fractionText])
      | cons c later =>
        obtain ⟨rfl, hlater⟩ := List.cons_prefix_cons.mp h
        exact ⟨later, rfl, hlater⟩
    have hbegin : later.takeWhile isDigit ≠ [] := by
      have hdigit := digits_begin digits _ hlater
      cases later with
      | nil => exact absurd hdigit (by simp)
      | cons d later => simp [show isDigit d = true from hdigit]
    have hfraction : Lexeme.fraction ('.' :: later) = '.' :: later.takeWhile isDigit := by
      rw [Lexeme.fraction]
      simp [hbegin]
    rw [hfraction]
    exact List.cons_prefix_cons.mpr ⟨rfl, prefix_digits_append digits.isDigit_of_mem
      (fun c hc => (powerText_begins power c hc).1) (fun _ => prefix_exponent) hlater⟩

/-- A numeral without its sign is part of the number that the lexer finds. -/
theorem prefix_unsignedText {n : Numeral} {text : List Char} (h : n.unsignedText <+: text) :
    n.unsignedText <+: numberTail text := by
  have hlater : ∀ c ∈ (fractionText n.fraction ++ powerText n.power).head?, isDigit c = false :=
    head?_fractionText n.fraction fun c hc => (powerText_begins n.power c hc).1
  have hbehind : ∀ behind, fractionText n.fraction ++ powerText n.power <+: behind →
      fractionText n.fraction ++ powerText n.power <+:
        Lexeme.fraction behind ++ exponent (behind.drop (Lexeme.fraction behind).length) :=
    fun _ => prefix_fraction
  exact prefix_digits_append n.whole.isDigit_of_mem hlater hbehind h

/-- A numeral at the beginning of a text goes no further than the number of the lexer. -/
theorem prefix_number {n : Numeral} {c : Char} {rest : List Char} (h : n.text <+: c :: rest) :
    n.text <+: c :: numberTail rest := by
  rw [Numeral.text] at h ⊢
  cases hnegative : n.negative with
  | true =>
    rw [hnegative, if_pos rfl] at h
    obtain ⟨rfl, hrest⟩ := List.cons_prefix_cons.mp h
    exact List.cons_prefix_cons.mpr ⟨rfl, prefix_unsignedText hrest⟩
  | false =>
    rw [hnegative, if_neg (by decide)] at h
    have hdigit : isDigit c = true := digits_begin n.whole _ h
    have htail : numberTail (c :: rest) = c :: numberTail rest := by
      simp [numberTail, hdigit]
    rw [if_neg (by decide), ← htail]
    exact prefix_unsignedText h

/-- The longest number is the one that the lexer finds. -/
theorem longest_number {c : Char} {rest : List Char}
    (hc : isDigit c = true ∨ (c = '-' ∧ rest.head?.any isDigit = true)) :
    Longest IsNumber (c :: rest) (c :: numberTail rest) where
  isPrefix := List.cons_prefix_cons.mpr ⟨rfl, isPrefix_numberTail rest⟩
  holds := exists_numeral_of_number hc
  length_le := by
    rintro _ hother ⟨n, rfl⟩
    exact (prefix_number hother).length_le

end Numbers

/-! ## Strings -/

section Strings

variable {rest : List Char}

/-- A string that begins with three quotes is opened by them. -/
theorem openingQuotes_of_take (h : rest.take 2 = ['"', '"']) :
    openingQuotes ('"' :: rest) = Literal.tripleQuote := by
  rw [← List.take_append_drop 2 rest, h]
  exact openingQuotes_triple _

/-- Any other string is opened by one quote. -/
theorem openingQuotes_of_take_ne (h : rest.take 2 ≠ ['"', '"']) :
    openingQuotes ('"' :: rest) = ['"'] :=
  openingQuotes_single fun hquotes => h (List.prefix_iff_eq_take.mp hquotes).symm

/-- Whichever quotes open a string, the first of them is one quote. -/
theorem openingQuotes_begin {c : Char} {u : List Char} (h : openingQuotes (c :: rest) <+: u)
    (hu : u <+: c :: rest) : c = '"' := by
  have hbegin : ['"'] <+: openingQuotes (c :: rest) := by
    unfold openingQuotes
    split
    · exact List.prefix_append ['"'] ['"', '"']
    · exact List.prefix_rfl
  exact (List.cons_prefix_cons.mp ((hbegin.trans h).trans hu)).1.symm

/-- Quotes do not close a text earlier than behind a content that fits them. -/
theorem length_content_le {quotes : Quotes} {content other later behind : List Char}
    (hfit : quotes.Fit content)
    (h : content ++ (quotes.marks ++ later) = other ++ (quotes.marks ++ behind)) :
    content.length ≤ other.length := by
  rcases List.append_eq_append_iff.mp h with ⟨more, rfl, -⟩ | ⟨more, rfl, hmore⟩
  · simp only [List.length_append, Nat.le_add_right]
  -- what the content has more than the other one would begin with the quotes, or end within them
  · cases quotes with
    | single =>
      cases more with
      | nil => simp
      | cons c more =>
        obtain rfl : '"' = c := (List.cons.inj hmore).1
        exact absurd rfl (hfit '"' (by simp)).1
    | triple =>
      obtain ⟨hinner, hlast⟩ := hfit
      match more with
      | [] => simp
      | [c] =>
        obtain rfl : '"' = c := (List.cons.inj hmore).1
        exact absurd (by simp) hlast
      | [c, d] =>
        obtain rfl : '"' = d := (List.cons.inj (List.cons.inj hmore).2).1
        exact absurd (by simp) hlast
      | c :: d :: e :: more =>
        have hquotes : '"' = c ∧ '"' = d ∧ '"' = e := by
          simpa [Quotes.marks, Literal.tripleQuote, and_assoc] using congrArg (List.take 3) hmore
        obtain ⟨rfl, rfl, rfl⟩ := hquotes
        exact absurd ⟨other, more, by simp [Literal.tripleQuote]⟩ hinner

/-- A string that is read without a fault is a literal in the quotes that open it. -/
theorem exists_literal_of_string (hfault : (string rest).fault = none) :
    ∃ l : StringLiteral, l.text = (string rest).text ∧
      openingQuotes ('"' :: rest) = l.quotes.marks := by
  obtain ⟨⟨quotes, content, hfit⟩, htext, hquotes⟩ := StringLiteral.exists_stringLiteral hfault
  refine ⟨⟨quotes, content, hfit⟩, htext, ?_⟩
  cases quotes with
  | single => exact openingQuotes_of_take_ne fun htake => nomatch hquotes.mpr htake
  | triple => exact openingQuotes_of_take (hquotes.mp rfl)

/-- Where a string is closed, the lexer finds the shortest that is. -/
theorem shortest_string (hfault : (string rest).fault = none) :
    Shortest (IsClosed (openingQuotes ('"' :: rest))) ('"' :: rest) (string rest).text := by
  obtain ⟨⟨quotes, content, hfit⟩, htext, hopen⟩ := exists_literal_of_string hfault
  have hbeginning := isPrefix_string_text rest
  rw [hopen]
  rw [← htext] at hbeginning ⊢
  refine ⟨hbeginning, ⟨⟨content, rfl⟩, fun hsingle c hc => ?_⟩, ?_⟩
  · cases quotes with
    | triple => exact nomatch hsingle
    | single =>
      simp only [StringLiteral.text, Quotes.marks, List.mem_append, List.mem_singleton] at hc
      rcases hc with rfl | hc | rfl
      · decide
      · exact (hfit c hc).2
      · decide
  · rintro _ ⟨behind, hother⟩ ⟨⟨other, rfl⟩, -⟩
    obtain ⟨later, hlater⟩ := hbeginning
    have heq : content ++ (quotes.marks ++ later) = other ++ (quotes.marks ++ behind) := by
      have hboth := hlater.trans hother.symm
      simpa only [StringLiteral.text, List.append_assoc, List.append_cancel_left_eq] using hboth
    have hle := length_content_le hfit heq
    simp only [StringLiteral.text, List.length_append]
    omega

/-- Where one quote opens a string that is not closed there is no further quote in the line. -/
theorem not_mem_of_unclosed {u : List Char}
    (hclose : (rest.drop (rest.takeWhile fun c => c ≠ '"' && !isBreak c).length).head? ≠ some '"')
    (hu : u <+: rest) (hbreak : ∀ c ∈ u, isBreak c = false) : '"' ∉ u := by
  intro hmem
  obtain ⟨content, later, rfl, hquote⟩ := List.eq_append_cons_of_mem hmem
  obtain ⟨behind, rfl⟩ := hu
  have hfit : Quotes.single.Fit content := fun c hc =>
    ⟨fun h => hquote (h ▸ hc), hbreak c (List.mem_append_left _ hc)⟩
  rw [List.append_assoc, List.cons_append, StringLiteral.takeWhile_content hfit,
    List.drop_left] at hclose
  exact hclose rfl

/-- Three quotes that are not closed open all the rest of the text. -/
theorem longest_triple (hopen : rest.take 2 = ['"', '"'])
    (hscan : throughQuotes 2 (rest.drop 2) = none) :
    (∀ u, u <+: '"' :: rest → ¬IsClosed Literal.tripleQuote u) ∧
      Longest (IsOpened Literal.tripleQuote) ('"' :: rest) ('"' :: rest) := by
  have hrest : '"' :: rest = Literal.tripleQuote ++ rest.drop 2 := by
    conv => lhs; rw [← List.take_append_drop 2 rest, hopen]
    rfl
  constructor
  · rintro _ ⟨behind, hu⟩ ⟨⟨content, rfl⟩, -⟩
    rw [hrest, List.append_assoc, List.append_assoc] at hu
    rw [← List.append_cancel_left hu] at hscan
    exact throughQuotes_ne_none 2 content behind hscan
  · exact ⟨List.prefix_rfl, ⟨hrest ▸ List.prefix_append _ _, nofun⟩, fun _ h _ => h.length_le⟩

/-- One quote that is not closed opens the rest of its line. -/
theorem longest_single
    (hclose : (rest.drop (rest.takeWhile fun c => c ≠ '"' && !isBreak c).length).head? ≠ some '"') :
    (∀ u, u <+: '"' :: rest → ¬IsClosed ['"'] u) ∧ Longest (IsOpened ['"']) ('"' :: rest)
      ('"' :: rest.takeWhile fun c => c ≠ '"' && !isBreak c) := by
  constructor
  · rintro _ hu ⟨⟨content, rfl⟩, hbreak⟩
    refine not_mem_of_unclosed hclose (List.cons_prefix_cons.mp hu).2
      (fun c hc => hbreak rfl c (List.mem_cons_of_mem _ hc)) ?_
    exact List.mem_append_right content List.mem_cons_self
  · refine ⟨prefix_run rest, ⟨List.prefix_append ['"'] _, fun _ => ?_⟩, ?_⟩
    · refine List.forall_mem_cons.mpr ⟨by decide, fun c hc => ?_⟩
      have hrun := of_mem_takeWhile hc
      simp only [Bool.and_eq_true, Bool.not_eq_true'] at hrun
      exact hrun.2
    · rintro _ hu ⟨⟨tail, rfl⟩, hbreak⟩
      have htail : ∀ c ∈ tail, isBreak c = false :=
        fun c hc => hbreak rfl c (List.mem_cons_of_mem _ hc)
      have hquote := not_mem_of_unclosed hclose (List.cons_prefix_cons.mp hu).2 htail
      exact length_le_run hu fun c hc => by
        simp [htail c hc, show c ≠ '"' from fun h => hquote (h ▸ hc)]

/-- Where no string is closed, the lexer goes on as far as one that is open may go. -/
theorem longest_string {fault : LexicalFault} (hfault : (string rest).fault = some fault) :
    (∀ u, u <+: '"' :: rest → ¬IsClosed (openingQuotes ('"' :: rest)) u) ∧
      Longest (IsOpened (openingQuotes ('"' :: rest))) ('"' :: rest) (string rest).text := by
  unfold string at hfault ⊢
  split at hfault
  · rename_i hopen
    rw [openingQuotes_of_take hopen, if_pos hopen]
    split at hfault
    · contradiction
    · rename_i hscan
      exact longest_triple hopen hscan
  · rename_i hopen
    rw [openingQuotes_of_take_ne hopen, if_neg hopen]
    simp only at hfault ⊢
    split at hfault
    · contradiction
    · rename_i hclose
      rw [if_neg hclose]
      exact longest_single hclose

/-- Nothing else can be wrong with a string than that it is not closed. -/
theorem fault_eq_of_string {fault : LexicalFault} (hfault : (string rest).fault = some fault) :
    fault = .unterminatedString := by
  rw [fault_string] at hfault
  split at hfault
  · contradiction
  · exact (Option.some.inj hfault).symm

end Strings

/-! ## The lexer takes what matches, and nothing else matches -/

section First

variable {c : Char} {rest : List Char}

/-- A text that begins with a character that begins nothing does not begin with a text of a
class. -/
theorem not_isLexical {u : List Char} (hbreak : isBreak c = false) (hblank : isBlank c = false)
    (hcomment : ¬(c = '#' ∨ (c = '/' ∧ rest.head? = some '/'))) (hquote : c ≠ '"')
    (hnumber : ¬(isDigit c = true ∨ (c = '-' ∧ rest.head?.any isDigit = true)))
    (hdirective : ¬(c = '@' ∧ rest.head?.any isNameStart = true))
    (hname : isNameStart c = false) (hmark : punctuation? c = none) (hu : u <+: c :: rest) :
    ¬IsLexical u := by
  intro h
  cases h with
  | blanks h => exact Bool.false_ne_true (hblank.symm.trans (blanks_begins h hu))
  | lineBreak h => exact Bool.false_ne_true (hbreak.symm.trans (lineBreak_begins h hu))
  | comment h => exact hcomment (comment_begins h hu)
  | number h => exact hnumber (number_begins h hu)
  | name h => exact Bool.false_ne_true (hname.symm.trans (name_begins h hu))
  | directive h => exact hdirective (directive_begins h hu)
  | quoted h => exact hquote (List.cons_prefix_cons.mp (h.trans hu)).1.symm
  | mark h hu' =>
    subst hu'
    obtain ⟨rfl, -⟩ := List.cons_prefix_cons.mp hu
    exact nomatch hmark.symm.trans (mem_marks_iff.mp h)

/-- A text that begins with no text of a class begins with a character that begins nothing. -/
theorem firstOf_skipped (hnone : ∀ u, u <+: c :: rest → ¬IsLexical u) :
    FirstOf c rest ⟨.skipped, [c], some .unexpectedCharacter⟩ := by
  have hone : [c] <+: c :: rest := List.prefix_append [c] rest
  refine .skipped (Bool.eq_false_iff.mpr fun hc => ?_) (Bool.eq_false_iff.mpr fun hc => ?_)
    (fun hc => ?_) (fun hc => ?_) (fun hc => ?_) (fun hc => ?_) (Bool.eq_false_iff.mpr fun hc => ?_)
    (Option.eq_none_iff_forall_ne_some.mpr fun kind hc => ?_)
  · exact hnone _ hone (.lineBreak (isLineBreak_of_isBreak hc))
  · exact hnone _ (longest_blanks hc).isPrefix (.blanks (longest_blanks hc).holds)
  · exact hnone _ (longest_comment hc).isPrefix (.comment (longest_comment hc).holds)
  · exact hnone _ hone (.quoted (hc ▸ List.prefix_rfl))
  · exact hnone _ (longest_number hc).isPrefix (.number (longest_number hc).holds)
  · obtain ⟨rfl, hrest⟩ := hc
    exact hnone _ (longest_directive hrest).isPrefix (.directive (longest_directive hrest).holds)
  · exact hnone _ (longest_name hc).isPrefix (.name (longest_name hc).holds)
  · exact hnone _ hone (.mark (mem_marks_iff.mpr hc) rfl)

/-- The longest name is matched by the lexeme of its kind. -/
theorem matches_name {u : List Char} (h : Longest IsName (c :: rest) u) :
    Matches (c :: rest) ⟨nameKind u, u, none⟩ := by
  unfold nameKind
  split
  · rename_i htrue
    subst htrue
    exact .trueWord h
  · rename_i htrue
    split
    · rename_i hfalse
      subst hfalse
      exact .falseWord h
    · rename_i hfalse
      exact .identifier h htrue hfalse

/-- What the lexer makes of a quote matches. -/
theorem matches_string (rest : List Char) : Matches ('"' :: rest) (string rest) := by
  have hkind := string_kind rest
  cases hfault : (string rest).fault with
  | none =>
    have hlexeme : string rest = ⟨.string, (string rest).text, none⟩ := by rw [← hkind, ← hfault]
    rw [hlexeme]
    exact .closed (shortest_string hfault)
  | some fault =>
    have hlexeme : string rest = ⟨.string, (string rest).text, some .unterminatedString⟩ := by
      rw [← fault_eq_of_string hfault, ← hkind, ← hfault]
    rw [hlexeme]
    exact .unclosed (longest_string hfault).1 (longest_string hfault).2

/-- What the lexer takes first matches. -/
theorem matches_first (c : Char) (rest : List Char) : Matches (c :: rest) (first c rest) := by
  have hfirst := firstOf_first c rest
  generalize first c rest = l at hfirst
  cases hfirst with
  | feedReturn hc hrest =>
    obtain ⟨later, rfl⟩ := List.head?_eq_some_iff.mp hrest
    subst hc
    exact .newline longest_feedReturn
  | lineBreak hc hrest => exact .newline (longest_lineBreak hc hrest)
  | blanks hc => exact .whitespace (longest_blanks hc)
  | comment hc => exact .comment (longest_comment hc)
  | quoted hc => exact hc ▸ matches_string rest
  | number hc => exact .number (longest_number hc)
  | directive hc hrest => exact hc ▸ .directive (longest_directive hrest)
  | name hc => exact matches_name (longest_name hc)
  | punctuation hc => exact .mark (mem_marks_iff.mpr hc) (List.prefix_append [c] rest)
  | skipped hbreak hblank hcomment hquote hnumber hdirective hname hmark =>
    exact .skipped (List.prefix_append [c] rest) fun _ =>
      not_isLexical hbreak hblank hcomment hquote hnumber hdirective hname hmark

/-- The longest name is the first lexeme. -/
theorem first_of_longest_name {u : List Char} (h : Longest IsName (c :: rest) u) :
    first c rest = ⟨nameKind u, u, none⟩ := by
  have hc := name_begins h.holds h.isPrefix
  rw [h.unique (longest_name hc)]
  exact first_of_isNameStart hc

/-- What matches is what the lexer takes first. -/
theorem first_eq_of_matches {l : Lexeme} (h : Matches (c :: rest) l) : first c rest = l := by
  cases h with
  | whitespace h =>
    have hc := blanks_begins h.holds h.isPrefix
    rw [h.unique (longest_blanks hc)]
    exact first_of_isBlank hc
  | newline h =>
    have hc := lineBreak_begins h.holds h.isPrefix
    by_cases hrest : c = '\r' ∧ rest.head? = some '\n'
    · obtain ⟨rfl, hhead⟩ := hrest
      obtain ⟨later, rfl⟩ := List.head?_eq_some_iff.mp hhead
      rw [h.unique longest_feedReturn]
      exact first_eq_iff.mpr (.feedReturn rfl rfl)
    · rw [h.unique (longest_lineBreak hc hrest)]
      exact first_eq_iff.mpr (.lineBreak hc hrest)
  | comment h =>
    have hc := comment_begins h.holds h.isPrefix
    rw [h.unique (longest_comment hc)]
    exact first_of_comment hc
  | number h =>
    have hc := number_begins h.holds h.isPrefix
    rw [h.unique (longest_number hc)]
    exact first_of_number hc
  | trueWord h => exact first_of_longest_name h
  | falseWord h => exact first_of_longest_name h
  | identifier h htrue hfalse =>
    have hkind : nameKind _ = .identifier := (if_neg htrue).trans (if_neg hfalse)
    rw [first_of_longest_name h, hkind]
  | directive h =>
    obtain ⟨rfl, hrest⟩ := directive_begins h.holds h.isPrefix
    rw [h.unique (longest_directive hrest)]
    exact first_at hrest
  | closed h =>
    obtain ⟨⟨content, hcontent⟩, -⟩ := h.holds
    obtain rfl := openingQuotes_begin (hcontent ▸ List.prefix_append _ _) h.isPrefix
    rw [first_quote]
    cases hfault : (string rest).fault with
    | none => rw [h.unique (shortest_string hfault), ← string_kind rest, ← hfault]
    | some fault => exact absurd h.holds ((longest_string hfault).1 _ h.isPrefix)
  | unclosed hopen h =>
    obtain rfl := openingQuotes_begin h.holds.1 h.isPrefix
    rw [first_quote]
    cases hfault : (string rest).fault with
    | none =>
      have hclosed := shortest_string hfault
      exact absurd hclosed.holds (hopen _ hclosed.isPrefix)
    | some fault =>
      rw [h.unique (longest_string hfault).2, ← string_kind rest, ← fault_eq_of_string hfault,
        ← hfault]
  | mark hmark h =>
    obtain ⟨rfl, -⟩ := List.cons_prefix_cons.mp h
    exact first_of_punctuation? (mem_marks_iff.mp hmark)
  | skipped h hnone =>
    obtain ⟨rfl, -⟩ := List.cons_prefix_cons.mp h
    exact first_eq_iff.mpr (firstOf_skipped hnone)

end First

/-- A token matches the text from where it stands. -/
theorem matches_of_mem_tokens {text : List Char} {t : Token} (h : t ∈ tokens text) :
    Matches (text.drop t.start) t.toLexeme := by
  obtain ⟨c, rest, hdrop, hfirst⟩ := exists_first_of_mem_tokens h
  rw [hdrop, hfirst]
  exact matches_first c rest

end Lexeme

/-- The token at a place of a text is the one lexeme that matches the text from there on: the
longest beginning of it that is of the class of the token, or for a closed string the shortest. A
character is skipped only where the text begins with nothing of any class. -/
theorem matches_at_every_token {text : List Char} {t : Token} (h : t ∈ tokens text) (l : Lexeme) :
    t.toLexeme = l ↔ Lexeme.Matches (text.drop t.start) l := by
  refine ⟨fun heq => heq ▸ Lexeme.matches_of_mem_tokens h, fun hmatches => ?_⟩
  obtain ⟨c, rest, hdrop, hfirst⟩ := exists_first_of_mem_tokens h
  rw [hdrop] at hmatches
  exact hfirst.trans (Lexeme.first_eq_of_matches hmatches)

/-- A letter and a sign behind a number without further digits are none of its power of ten. -/
theorem matches_at_number_before_letter :
    (⟨⟨.number, "-1.5".toList, none⟩, 0⟩ : Token) ∈ tokens "-1.5e+x".toList ∧
      Lexeme.Matches "-1.5e+x".toList ⟨.number, "-1.5".toList, none⟩ ∧
      Lexeme.Matches "+x".toList ⟨.skipped, ['+'], some .unexpectedCharacter⟩ := by
  have hnumber : (⟨⟨.number, "-1.5".toList, none⟩, 0⟩ : Token) ∈ tokens "-1.5e+x".toList := by
    decide +kernel
  have hsign : (⟨⟨.skipped, ['+'], some .unexpectedCharacter⟩, 5⟩ : Token) ∈
      tokens "-1.5e+x".toList := by
    decide +kernel
  exact ⟨hnumber, (matches_at_every_token hnumber _).mp rfl, (matches_at_every_token hsign _).mp rfl⟩

end WorldDoc
