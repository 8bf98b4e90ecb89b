import WorldDoc.Proofs.Lexical.First
import WorldDoc.Value.Literal

/-!
# Numerals

The decimal numbers of world documents as data: whether they are negative, their digits, perhaps a
fraction and perhaps a power of ten. A numeral has the text that writes it (`text`) and the decimal
number that it stands for (`decimal`).

The lexer and the decoder know these numerals and no others, each in its own words. The lexer finds
a numeral wherever one stands and nothing behind it makes it longer (`first_numeral`), and all its
numbers are numerals (`exists_numeral_of_number`); the decoder reads the text of a numeral as the
decimal number it stands for (`decimal?_text`).
-/

namespace WorldDoc

open Lexical

/-- One digit or more. -/
structure Digits where
  chars : List Char
  ne_nil : chars ≠ []
  isDigit_of_mem : ∀ c ∈ chars, isDigit c = true

/-- A power of ten: the letter E, perhaps a sign, and digits. -/
structure PowerOfTen where
  letter : Char
  letter_eq : letter = 'e' ∨ letter = 'E'
  sign : Option Char
  sign_eq : ∀ c ∈ sign, c = '+' ∨ c = '-'
  digits : Digits

/-- A decimal number as it is written. -/
structure Numeral where
  negative : Bool
  whole : Digits
  fraction : Option Digits
  power : Option PowerOfTen

namespace PowerOfTen

/-- The text of a power of ten. -/
def text (p : PowerOfTen) : List Char := p.letter :: (p.sign.toList ++ p.digits.chars)

/-- The exponent that a power of ten writes. -/
def exponent (p : PowerOfTen) : Int :=
  if p.sign = some '-' then -(Literal.natOfDigits p.digits.chars : Int)
  else Literal.natOfDigits p.digits.chars

end PowerOfTen

namespace Numeral

/-- The text of an optional fraction: a point and digits. -/
def fractionText : Option Digits → List Char
  | none => []
  | some digits => '.' :: digits.chars

/-- The text of an optional power of ten. -/
def powerText : Option PowerOfTen → List Char
  | none => []
  | some power => power.text

/-- The text of a numeral without its sign. -/
def unsignedText (n : Numeral) : List Char :=
  n.whole.chars ++ (fractionText n.fraction ++ powerText n.power)

/-- The text of a numeral. -/
def text (n : Numeral) : List Char :=
  if n.negative then '-' :: n.unsignedText else n.unsignedText

/-- The decimal number that a numeral stands for. -/
def decimal (n : Numeral) : Literal.Decimal where
  negative := n.negative
  whole := n.whole.chars
  fraction := (n.fraction.map Digits.chars).getD []
  exponent := (n.power.map PowerOfTen.exponent).getD 0

/-- No numeral goes on with the text: it begins neither with a digit nor with a point nor with the
letter E. -/
def Ends (rest : List Char) : Prop :=
  ∀ c ∈ rest.head?, isDigit c = false ∧ c ≠ '.' ∧ c ≠ 'e' ∧ c ≠ 'E'

theorem ends_nil : Ends [] := by simp [Ends]

/-! ## Digits -/

/-- Digits are all the digits at the head of a text if the text goes on with something else. -/
theorem takeWhile_isDigit {digits rest : List Char} (hdigits : ∀ c ∈ digits, isDigit c = true)
    (hrest : ∀ c ∈ rest.head?, isDigit c = false) :
    (digits ++ rest).takeWhile isDigit = digits := by
  rw [List.takeWhile_append_of_pos hdigits]
  have hstop : rest.takeWhile isDigit = [] := by
    cases rest with
    | nil => rfl
    | cons c later => simp [hrest c rfl]
  rw [hstop, List.append_nil]

/-- The digits at the front of a text are digits. -/
theorem isDigit_of_mem_takeWhile {text : List Char} :
    ∀ c ∈ text.takeWhile isDigit, isDigit c = true :=
  List.all_eq_true.mp List.all_takeWhile

/-- The first of some digits, behind which anything may stand. -/
theorem Digits.head?_append (d : Digits) (rest : List Char) :
    (d.chars ++ rest).head?.any isDigit = true := by
  obtain ⟨chars, hne, hdigits⟩ := d
  cases chars with
  | nil => exact absurd rfl hne
  | cons c later => exact hdigits c List.mem_cons_self

/-! ## Fractions and powers of ten -/

/-- Without a point the scanner takes no fraction. -/
theorem fraction_of_head?_ne {text : List Char} (h : ∀ c ∈ text.head?, c ≠ '.') :
    Lexeme.fraction text = [] := by
  unfold Lexeme.fraction
  split
  · exact absurd rfl (h '.' rfl)
  · rfl

/-- Without the letter E the scanner takes no power of ten. -/
theorem exponent_of_head?_ne {text : List Char} (h : ∀ c ∈ text.head?, c ≠ 'e' ∧ c ≠ 'E') :
    Lexeme.exponent text = [] := by
  cases text with
  | nil => rfl
  | cons c rest =>
    obtain ⟨hlower, hupper⟩ := h c rfl
    rw [Lexeme.exponent, if_neg (by simp [hlower, hupper])]

/-- The fraction of a numeral is the one that the lexer finds. -/
theorem fraction_fractionText (fraction : Option Digits) {rest : List Char}
    (hdigit : ∀ c ∈ rest.head?, isDigit c = false) (hpoint : ∀ c ∈ rest.head?, c ≠ '.') :
    Lexeme.fraction (fractionText fraction ++ rest) = fractionText fraction := by
  cases fraction with
  | none => exact fraction_of_head?_ne hpoint
  | some digits =>
    rw [fractionText, List.cons_append, Lexeme.fraction,
      takeWhile_isDigit digits.isDigit_of_mem hdigit]
    simp [digits.ne_nil]

/-- What a sign in front of digits is found to be, whether there is one or not. -/
theorem sign_append {sign : Option Char} (hsign : ∀ c ∈ sign, c = '+' ∨ c = '-') (digits : Digits)
    (rest : List Char) : Lexeme.sign (sign.toList ++ (digits.chars ++ rest)) = sign.toList := by
  cases sign with
  | some c => exact if_pos (hsign c rfl)
  | none =>
    obtain ⟨chars, hne, hdigits⟩ := digits
    cases chars with
    | nil => exact absurd rfl hne
    | cons c later =>
      have hdigit := hdigits c List.mem_cons_self
      have hplus : c ≠ '+' := Lexeme.ne_of_isDigit hdigit (by decide)
      have hminus : c ≠ '-' := Lexeme.ne_of_isDigit hdigit (by decide)
      exact if_neg (by simp [hplus, hminus])

/-- The power of ten of a numeral is the one that the lexer finds. -/
theorem exponent_powerText (power : Option PowerOfTen) {rest : List Char}
    (hdigit : ∀ c ∈ rest.head?, isDigit c = false)
    (hletter : ∀ c ∈ rest.head?, c ≠ 'e' ∧ c ≠ 'E') :
    Lexeme.exponent (powerText power ++ rest) = powerText power := by
  cases power with
  | none => exact exponent_of_head?_ne hletter
  | some p =>
    have htext : powerText (some p) ++ rest =
        p.letter :: (p.sign.toList ++ (p.digits.chars ++ rest)) := by
      simp [powerText, PowerOfTen.text]
    rw [htext, Lexeme.exponent, if_pos p.letter_eq, sign_append p.sign_eq, List.drop_left,
      takeWhile_isDigit p.digits.isDigit_of_mem hdigit]
    simp [p.digits.ne_nil, powerText, PowerOfTen.text]

/-- A power of ten begins with a letter, which is neither a digit nor a point. -/
theorem head?_powerText (power : Option PowerOfTen) {rest : List Char} (hrest : Ends rest) :
    ∀ c ∈ (powerText power ++ rest).head?, isDigit c = false ∧ c ≠ '.' := by
  cases power with
  | none =>
    intro c hc
    obtain ⟨hdigit, hpoint, -⟩ := hrest c hc
    exact ⟨hdigit, hpoint⟩
  | some p =>
    rintro c ⟨⟩
    rcases p.letter_eq with h | h
    all_goals
      rw [h]
      decide

/-- A fraction begins with a point, which is no digit. -/
theorem head?_fractionText (fraction : Option Digits) {rest : List Char}
    (hrest : ∀ c ∈ rest.head?, isDigit c = false) :
    ∀ c ∈ (fractionText fraction ++ rest).head?, isDigit c = false := by
  cases fraction with
  | none => exact hrest
  | some digits =>
    rintro c ⟨⟩
    decide

/-- What the lexer takes for a fraction is one. -/
theorem exists_fractionText (text : List Char) :
    ∃ fraction, Lexeme.fraction text = fractionText fraction := by
  unfold Lexeme.fraction
  split
  · rename_i rest
    simp only
    split
    · exact ⟨none, rfl⟩
    · rename_i hne
      exact ⟨some ⟨rest.takeWhile isDigit, by simpa using hne, isDigit_of_mem_takeWhile⟩, rfl⟩
  · exact ⟨none, rfl⟩

/-- What the lexer takes for a sign is one. -/
theorem exists_sign (text : List Char) :
    ∃ sign : Option Char, (∀ c ∈ sign, c = '+' ∨ c = '-') ∧ Lexeme.sign text = sign.toList := by
  unfold Lexeme.sign
  split
  · rename_i c rest
    split
    · rename_i hc
      exact ⟨some c, by rintro d ⟨⟩; exact hc, rfl⟩
    · exact ⟨none, by simp, rfl⟩
  · exact ⟨none, by simp, rfl⟩

/-- What the lexer takes for a power of ten is one. -/
theorem exists_powerText (text : List Char) :
    ∃ power, Lexeme.exponent text = powerText power := by
  cases text with
  | nil => exact ⟨none, rfl⟩
  | cons c rest =>
    rw [Lexeme.exponent]
    split
    · rename_i hletter
      obtain ⟨sign, hsign, htext⟩ := exists_sign rest
      simp only
      split
      · exact ⟨none, rfl⟩
      · rename_i hne
        rw [htext] at hne ⊢
        exact ⟨some ⟨c, hletter, sign, hsign, ⟨_, by simpa using hne,
          isDigit_of_mem_takeWhile⟩⟩, rfl⟩
    · exact ⟨none, rfl⟩

/-! ## The lexer -/

/-- The tail of a number, behind any digits, is the rest of the numeral and nothing more. -/
theorem numberTail_append {digits : List Char} (hdigits : ∀ c ∈ digits, isDigit c = true)
    (fraction : Option Digits) (power : Option PowerOfTen) {rest : List Char} (hrest : Ends rest) :
    Lexeme.numberTail (digits ++ (fractionText fraction ++ (powerText power ++ rest))) =
      digits ++ (fractionText fraction ++ powerText power) := by
  have hpower := head?_powerText power hrest
  have hpoint := head?_fractionText fraction fun c hc => (hpower c hc).1
  have hfraction := fraction_fractionText fraction (fun c hc => (hpower c hc).1)
    fun c hc => (hpower c hc).2
  have hexponent := exponent_powerText power (fun c hc => (hrest c hc).1)
    fun c hc => (hrest c hc).2.2
  simp only [Lexeme.numberTail, takeWhile_isDigit hdigits hpoint, List.drop_left, hfraction,
    hexponent]

/-- The lexer reads a numeral as a number and takes nothing of what stands behind it. -/
theorem first_numeral (n : Numeral) {c : Char} {later rest : List Char} (hrest : Ends rest)
    (htext : n.text = c :: later) :
    Lexeme.first c (later ++ rest) = ⟨.number, c :: later, none⟩ := by
  obtain ⟨negative, whole, fraction, power⟩ := n
  cases negative with
  | true =>
    obtain ⟨rfl, rfl⟩ := List.cons.inj htext
    have htail := numberTail_append whole.isDigit_of_mem fraction power hrest
    have happend : unsignedText ⟨true, whole, fraction, power⟩ ++ rest =
        whole.chars ++ (fractionText fraction ++ (powerText power ++ rest)) := by
      simp [unsignedText]
    rw [happend, Lexeme.first_of_number (Or.inr ⟨rfl, Digits.head?_append whole _⟩), htail]
    rfl
  | false =>
    obtain ⟨chars, hne, hdigits⟩ := whole
    cases chars with
    | nil => exact absurd rfl hne
    | cons d digits =>
      obtain ⟨rfl, rfl⟩ := List.cons.inj htext
      have htail := numberTail_append (fun c hc => hdigits c (List.mem_cons_of_mem _ hc)) fraction
        power hrest
      show Lexeme.first d (digits ++ (fractionText fraction ++ powerText power) ++ rest) =
        ⟨.number, d :: (digits ++ (fractionText fraction ++ powerText power)), none⟩
      rw [List.append_assoc, List.append_assoc,
        Lexeme.first_of_number (Or.inl (hdigits d List.mem_cons_self)), htail]

/-- Every number of the lexer is the text of a numeral. -/
theorem exists_numeral_of_number {c : Char} {rest : List Char}
    (hc : isDigit c = true ∨ (c = '-' ∧ rest.head?.any isDigit = true)) :
    ∃ n : Numeral, n.text = c :: Lexeme.numberTail rest := by
  obtain ⟨fraction, hfraction⟩ :=
    exists_fractionText (rest.drop (rest.takeWhile isDigit).length)
  obtain ⟨power, hpower⟩ := exists_powerText ((rest.drop (rest.takeWhile isDigit).length).drop
    (fractionText fraction).length)
  have htail : Lexeme.numberTail rest =
      rest.takeWhile isDigit ++ (fractionText fraction ++ powerText power) := by
    simp only [Lexeme.numberTail, hfraction, hpower]
  rw [htail]
  rcases hc with hdigit | ⟨rfl, hhead⟩
  · refine ⟨⟨false, ⟨c :: rest.takeWhile isDigit, by simp, ?_⟩, fraction, power⟩, rfl⟩
    exact List.forall_mem_cons.mpr ⟨hdigit, isDigit_of_mem_takeWhile⟩
  · have hne : rest.takeWhile isDigit ≠ [] := by
      cases rest with
      | nil => exact absurd hhead (by simp)
      | cons d later => simp [show isDigit d = true from hhead]
    exact ⟨⟨true, ⟨_, hne, isDigit_of_mem_takeWhile⟩, fraction, power⟩, rfl⟩

/-! ## The decoder -/

/-- Where something else stands behind some digits, the decoder finds all of them. -/
theorem digits?_append (d : Digits) {rest : List Char}
    (hrest : ∀ c ∈ rest.head?, isDigit c = false) :
    Literal.digits? (d.chars ++ rest) = some (d.chars, rest) := by
  have htake : (d.chars ++ rest).takeWhile Literal.isDigit = d.chars :=
    takeWhile_isDigit d.isDigit_of_mem hrest
  have hdrop : (d.chars ++ rest).dropWhile Literal.isDigit = rest := by
    have hsplit := List.takeWhile_append_dropWhile (p := Literal.isDigit) (l := d.chars ++ rest)
    rw [htake] at hsplit
    exact List.append_cancel_left hsplit
  simp [Literal.digits?, htake, hdrop, d.ne_nil]

/-- What the decoder takes for digits are digits, and nothing is lost behind them. -/
theorem exists_digits_of_digits? {text digits rest : List Char}
    (h : Literal.digits? text = some (digits, rest)) :
    ∃ d : Digits, text = d.chars ++ rest := by
  rw [Literal.digits?] at h
  split at h
  · contradiction
  · rename_i hne
    obtain ⟨-, rfl⟩ := Prod.mk.inj (Option.some.inj h)
    exact ⟨⟨_, fun hnil => hne (List.isEmpty_iff.mpr hnil), isDigit_of_mem_takeWhile⟩,
      List.takeWhile_append_dropWhile.symm⟩

/-- The decoder finds the fraction of a numeral, whatever may stand behind it. -/
theorem fraction?_fractionText (fraction : Option Digits) {rest : List Char}
    (hdigit : ∀ c ∈ rest.head?, isDigit c = false) (hpoint : ∀ c ∈ rest.head?, c ≠ '.') :
    Literal.fraction? (fractionText fraction ++ rest) =
      some ((fraction.map Digits.chars).getD [], rest) := by
  cases fraction with
  | some digits => exact digits?_append digits hdigit
  | none =>
    rw [fractionText, List.nil_append, Literal.fraction?.eq_def]
    split
    · exact absurd rfl (hpoint '.' rfl)
    · rfl

/-- What the decoder takes for a fraction is one. -/
theorem exists_fractionText_of_fraction? {text digits rest : List Char}
    (h : Literal.fraction? text = some (digits, rest)) :
    ∃ fraction, text = fractionText fraction ++ rest := by
  rw [Literal.fraction?.eq_def] at h
  split at h
  · obtain ⟨d, rfl⟩ := exists_digits_of_digits? h
    exact ⟨some d, rfl⟩
  · obtain ⟨-, rfl⟩ := Prod.mk.inj (Option.some.inj h)
    exact ⟨none, rfl⟩

/-- The decoder reads digits as the number that they write. -/
theorem natural?_chars (d : Digits) :
    Literal.natural? d.chars = some (Literal.natOfDigits d.chars) := by
  have hall : d.chars.all Literal.isDigit = true := List.all_eq_true.mpr d.isDigit_of_mem
  simp [Literal.natural?, d.ne_nil, hall]

/-- What the decoder reads as a natural number are digits. -/
theorem exists_digits_of_natural? {text : List Char} {n : Nat}
    (h : Literal.natural? text = some n) : ∃ d : Digits, d.chars = text := by
  obtain ⟨hdigits, -⟩ := Option.ite_none_right_eq_some.mp h
  obtain ⟨hne, hall⟩ := Bool.and_eq_true_iff.mp hdigits
  exact ⟨⟨text, by simpa using hne, List.all_eq_true.mp hall⟩, rfl⟩

/-- The decoder reads digits with a sign, or without one, as the integer that they write. -/
theorem integer?_sign {sign : Option Char} (hsign : ∀ c ∈ sign, c = '+' ∨ c = '-')
    (digits : Digits) : Literal.integer? (sign.toList ++ digits.chars) =
      some (if sign = some '-' then -(Literal.natOfDigits digits.chars : Int)
        else Literal.natOfDigits digits.chars) := by
  cases sign with
  | some c =>
    rcases hsign c rfl with rfl | rfl
    all_goals exact congrArg (Option.map _) (natural?_chars digits)
  | none =>
    have hhead : ∀ c ∈ digits.chars.head?, isDigit c = true := fun c hc =>
      digits.isDigit_of_mem c (List.mem_of_mem_head? hc)
    show Literal.integer? digits.chars = some (Literal.natOfDigits digits.chars : Int)
    rw [Literal.integer?.eq_def]
    split
    · rename_i hchars
      exact absurd (hhead '-' (by rw [hchars]; rfl)) (by decide)
    · rename_i hchars
      exact absurd (hhead '+' (by rw [hchars]; rfl)) (by decide)
    · exact congrArg (Option.map _) (natural?_chars digits)

/-- What the decoder reads as an integer are digits with a sign or without one. -/
theorem exists_sign_of_integer? {text : List Char} {z : Int} (h : Literal.integer? text = some z) :
    ∃ (sign : Option Char) (digits : Digits), (∀ c ∈ sign, c = '+' ∨ c = '-') ∧
      text = sign.toList ++ digits.chars := by
  rw [Literal.integer?.eq_def] at h
  split at h
  all_goals
    obtain ⟨n, hn, -⟩ := Option.map_eq_some_iff.mp h
    obtain ⟨d, rfl⟩ := exists_digits_of_natural? hn
  · exact ⟨some '-', d, fun c hc => Or.inr (Option.some.inj hc).symm, rfl⟩
  · exact ⟨some '+', d, fun c hc => Or.inl (Option.some.inj hc).symm, rfl⟩
  · exact ⟨none, d, nofun, rfl⟩

/-- The decoder reads the power of ten of a numeral as its exponent. -/
theorem exponent?_powerText (power : Option PowerOfTen) :
    Literal.exponent? (powerText power) = some ((power.map PowerOfTen.exponent).getD 0) := by
  cases power with
  | none => rfl
  | some p => exact (if_pos p.letter_eq).trans (integer?_sign p.sign_eq p.digits)

/-- What the decoder reads as an exponent is a power of ten, or nothing at all. -/
theorem exists_powerText_of_exponent? {text : List Char} {z : Int}
    (h : Literal.exponent? text = some z) : ∃ power, text = powerText power := by
  cases text with
  | nil => exact ⟨none, rfl⟩
  | cons letter rest =>
    obtain ⟨hletter, hinteger⟩ := Option.ite_none_right_eq_some.mp h
    obtain ⟨sign, digits, hsign, rfl⟩ := exists_sign_of_integer? hinteger
    exact ⟨some ⟨letter, hletter, sign, hsign, digits⟩, rfl⟩

/-- The sign of a numeral is split off its text. -/
theorem splitSign_text (n : Numeral) :
    Literal.splitSign n.text = (n.negative, n.unsignedText) := by
  obtain ⟨negative, whole, fraction, power⟩ := n
  cases negative with
  | true => rfl
  | false =>
    -- without a sign the text begins with a digit
    have hdigit := Digits.head?_append whole (fractionText fraction ++ powerText power)
    rw [Literal.splitSign.eq_def]
    split
    · rename_i rest htext
      rw [show whole.chars ++ (fractionText fraction ++ powerText power) = '-' :: rest from htext]
        at hdigit
      contradiction
    · rfl

/-- A text is the sign that is split off and what is left of it. -/
theorem eq_of_splitSign {text unsigned : List Char} {negative : Bool}
    (h : Literal.splitSign text = (negative, unsigned)) :
    text = if negative then '-' :: unsigned else unsigned := by
  rw [Literal.splitSign.eq_def] at h
  split at h
  all_goals
    obtain ⟨rfl, rfl⟩ := Prod.mk.inj h
    rfl

/-- The decoder reads the text of a numeral as the decimal number it stands for. -/
theorem decimal?_text (n : Numeral) : Literal.decimal? n.text = some n.decimal := by
  have hpower := head?_powerText n.power ends_nil
  rw [List.append_nil] at hpower
  have hwhole : Literal.digits? n.unsignedText =
      some (n.whole.chars, fractionText n.fraction ++ powerText n.power) :=
    digits?_append n.whole (head?_fractionText n.fraction fun c hc => (hpower c hc).1)
  have hfraction := fraction?_fractionText n.fraction (fun c hc => (hpower c hc).1)
    fun c hc => (hpower c hc).2
  simp only [Literal.decimal?, splitSign_text, hwhole, hfraction, exponent?_powerText,
    Option.bind_eq_bind, Option.bind_some]
  rfl

/-- Whatever the decoder reads as a decimal number is the text of a numeral. -/
theorem exists_numeral_of_decimal? {text : List Char} (h : (Literal.decimal? text).isSome) :
    ∃ n : Numeral, n.text = text := by
  obtain ⟨d, hd⟩ := Option.isSome_iff_exists.mp h
  obtain ⟨⟨negative, unsigned⟩, hsign⟩ : ∃ split, Literal.splitSign text = split := ⟨_, rfl⟩
  simp only [Literal.decimal?, hsign, Option.bind_eq_bind, Option.bind_eq_some_iff] at hd
  obtain ⟨⟨whole, behindWhole⟩, hwhole, ⟨fraction, behindFraction⟩, hfraction, z, hpower, -⟩ := hd
  obtain ⟨digits, rfl⟩ := exists_digits_of_digits? hwhole
  obtain ⟨fraction, rfl⟩ := exists_fractionText_of_fraction? hfraction
  obtain ⟨power, rfl⟩ := exists_powerText_of_exponent? hpower
  exact ⟨⟨negative, digits, fraction, power⟩, (eq_of_splitSign hsign).symm⟩

end Numeral

end WorldDoc
