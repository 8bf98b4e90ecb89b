import Mathlib.Algebra.Group.Nat.Defs
import Mathlib.Tactic.SplitIfs
import WorldDoc.Text.Quoted

/-!
# Quoted text is read back

A quoted text stays on one line (`Quoted.break_not_mem_encodeChars`) and is the quoted form of no
other text (`Quoted.encode_injective`).

What a character is written as is read back one character at a time: behind a backslash the next
character says how many hexadecimal digits follow, or what is meant by it (`readChar`). It never
matters how a text is quoted, because neither quote mark is the letter of an escape.
-/

namespace WorldDoc.Quoted

/-! ## Hexadecimal digits -/

/-- The number that a hexadecimal digit in lower case stands for. -/
def digitValue (c : Char) : Nat := if c.toNat < 58 then c.toNat - 48 else c.toNat - 87

/-- The number that hexadecimal digits write. -/
def hexValue (digits : List Char) : Nat := digits.foldl (fun n c => n * 16 + digitValue c) 0

/-- A hexadecimal digit stands for the number it is written for. -/
theorem digitValue_digitChar : ∀ d < 16, digitValue (Nat.digitChar d) = d := by decide

/-- As many digits are written as are asked for. -/
theorem length_hexDigits (width n : Nat) : (hexDigits width n).length = width := by
  induction width generalizing n with
  | zero => rfl
  | succ width ih => rw [hexDigits, List.length_append, ih]; rfl

/-- A number that fits is read back from its digits. -/
theorem hexValue_hexDigits {width n : Nat} (h : n < 16 ^ width) :
    hexValue (hexDigits width n) = n := by
  induction width generalizing n with
  | zero =>
    rw [Nat.pow_zero, Nat.lt_one_iff] at h
    rw [h]
    rfl
  | succ width ih =>
    have hdiv : n / 16 < 16 ^ width := Nat.div_lt_of_lt_mul (by rwa [Nat.mul_comm, ← Nat.pow_succ])
    rw [hexDigits, hexValue, List.foldl_append, ← hexValue, ih hdiv]
    show n / 16 * 16 + digitValue _ = n
    rw [digitValue_digitChar _ (Nat.mod_lt _ (by decide)), Nat.div_add_mod']

/-- Nothing but hexadecimal digits is written. -/
theorem mem_hexDigits {width n : Nat} {c : Char} (h : c ∈ hexDigits width n) :
    ∃ d < 16, c = Nat.digitChar d := by
  induction width generalizing n with
  | zero => exact absurd h List.not_mem_nil
  | succ width ih =>
    rcases List.mem_append.mp h with h | h
    · exact ih h
    · exact ⟨n % 16, Nat.mod_lt _ (by decide), List.mem_singleton.mp h⟩

/-! ## Reading back -/

/-- How many hexadecimal digits follow the letter of an escape. -/
def codeWidth? (letter : Char) : Option Nat :=
  if letter = 'x' then some 2
  else if letter = 'u' then some 4
  else if letter = 'U' then some 8
  else none

/-- What the letter of an escape without digits stands for. -/
def escaped (letter : Char) : Char :=
  if letter = 't' then '\t'
  else if letter = 'n' then '\n'
  else if letter = 'r' then '\r'
  else letter

/-- Reads one character of a text between its quote marks. -/
def readChar : List Char → Option (Char × List Char)
  | '\\' :: letter :: rest =>
    match codeWidth? letter with
    | some width => some (Char.ofNat (hexValue (rest.take width)), rest.drop width)
    | none => some (escaped letter, rest)
  | c :: rest => some (c, rest)
  | [] => none

/-- An escape of one letter is read as what the letter stands for. -/
theorem readChar_letter {letter : Char} (h : codeWidth? letter = none) (rest : List Char) :
    readChar ('\\' :: letter :: rest) = some (escaped letter, rest) := by
  simp only [readChar, h]

/-- Any character but a backslash is read as itself. -/
theorem readChar_self {c : Char} (h : c ≠ '\\') (rest : List Char) :
    readChar (c :: rest) = some (c, rest) := by
  unfold readChar
  split
  · rename_i heq
    exact absurd (List.cons.inj heq).1 h
  · rename_i heq
    obtain ⟨rfl, rfl⟩ := List.cons.inj heq
    rfl
  · contradiction

/-- An escape with digits is read as the character with that number. -/
theorem readChar_code {letter c : Char} {width : Nat} (h : codeWidth? letter = some width)
    (hc : c.toNat < 16 ^ width) (rest : List Char) :
    readChar ('\\' :: letter :: (hexDigits width c.toNat ++ rest)) = some (c, rest) := by
  have htake : (hexDigits width c.toNat ++ rest).take width = hexDigits width c.toNat :=
    List.take_left' (length_hexDigits width c.toNat)
  have hdrop : (hexDigits width c.toNat ++ rest).drop width = rest :=
    List.drop_left' (length_hexDigits width c.toNat)
  simp only [readChar, h, htake, hdrop, hexValue_hexDigits hc, Char.ofNat_toNat]

/-- A character that is written by its number is read back. -/
theorem readChar_escapeCode (c : Char) (rest : List Char) :
    readChar (escapeCode c ++ rest) = some (c, rest) := by
  have hvalid : c.toNat < 0x110000 := by
    rcases c.valid with h | h
    · exact Nat.lt_trans h (by decide)
    · exact h.2
  unfold escapeCode
  split
  · rename_i h
    exact readChar_code rfl h rest
  · split
    · rename_i h
      exact readChar_code rfl h rest
    · exact readChar_code rfl (Nat.lt_trans hvalid (by decide)) rest

/-- The quote marks are double or single ones. -/
theorem mark_eq (text : List Char) : mark text = '"' ∨ mark text = '\'' := by
  unfold mark
  split
  · exact .inl rfl
  · exact .inr rfl

/-- Between quote marks a character is written by the letter of an escape, by its code, or as
itself. -/
theorem encodeChar_cases {quote : Char} (hquote : quote = '"' ∨ quote = '\'') (c : Char) :
    (∃ letter, codeWidth? letter = none ∧ letter ≠ '\n' ∧ escaped letter = c ∧
        encodeChar quote c = ['\\', letter]) ∨
      encodeChar quote c = escapeCode c ∨
        (c ≠ '\\' ∧ c ≠ '\n' ∧ encodeChar quote c = [c]) := by
  unfold encodeChar
  split_ifs with hself htab hbreak hreturn hunprintable
  · -- a quote mark is no letter with a meaning of its own, and neither is the backslash
    refine .inl ⟨c, ?_⟩
    rcases hself with rfl | rfl
    · rcases hquote with rfl | rfl <;> decide
    · decide
  · exact .inl ⟨'t', by decide, by decide, htab.symm, rfl⟩
  · exact .inl ⟨'n', by decide, by decide, hbreak.symm, rfl⟩
  · exact .inl ⟨'r', by decide, by decide, hreturn.symm, rfl⟩
  · exact .inr (.inl rfl)
  · exact .inr (.inr ⟨(not_or.mp hself).2, hbreak, rfl⟩)

/-- Between quote marks each character is read back. -/
theorem readChar_encodeChar {quote : Char} (hquote : quote = '"' ∨ quote = '\'') (c : Char)
    (rest : List Char) : readChar (encodeChar quote c ++ rest) = some (c, rest) := by
  rcases encodeChar_cases hquote c with ⟨letter, hletter, -, rfl, h⟩ | h | ⟨hne, -, h⟩
  · rw [h]
    exact readChar_letter hletter rest
  · rw [h]
    exact readChar_escapeCode c rest
  · rw [h]
    exact readChar_self hne rest

/-- Two texts that are written alike between quote marks are the same. -/
theorem flatMap_encodeChar_injective {quote : Char} (hquote : quote = '"' ∨ quote = '\'') :
    Function.Injective (List.flatMap (encodeChar quote)) := by
  intro s t h
  induction s generalizing t with
  | nil =>
    cases t with
    | nil => rfl
    | cons d t =>
      have hread := readChar_encodeChar hquote d (t.flatMap (encodeChar quote))
      rw [← List.flatMap_cons, ← h] at hread
      contradiction
  | cons c s ih =>
    have hread := readChar_encodeChar hquote c (s.flatMap (encodeChar quote))
    rw [← List.flatMap_cons, h] at hread
    cases t with
    | nil => contradiction
    | cons d t =>
      rw [List.flatMap_cons, readChar_encodeChar hquote d] at hread
      obtain ⟨rfl, hrest⟩ := Prod.mk.inj (Option.some.inj hread)
      rw [ih hrest.symm]

/-- Two texts that are written the same between quote marks are the same. -/
theorem encodeChars_injective : Function.Injective encodeChars := by
  intro s t h
  obtain ⟨hmark, htail⟩ := List.cons.inj (show _ :: _ = _ :: _ from h)
  rw [hmark] at htail
  exact flatMap_encodeChar_injective (mark_eq t) (List.append_cancel_right htail)

/-- A quoted form is that of one text only. -/
theorem encode_injective : Function.Injective encode := fun _ _ h =>
  String.toList_injective (encodeChars_injective (String.ofList_injective h))

/-! ## On one line -/

/-- An escape holds no line feed. -/
theorem break_not_mem_escapeCode (c : Char) : '\n' ∉ escapeCode c := by
  have hdigits (width : Nat) : '\n' ∉ hexDigits width c.toNat := by
    intro h
    obtain ⟨d, hd, heq⟩ := mem_hexDigits h
    revert d
    decide
  unfold escapeCode
  split
  · simp [hdigits]
  · split <;> simp [hdigits]

/-- A character is written without a line feed, also if it is one. -/
theorem break_not_mem_encodeChar {quote : Char} (hquote : quote = '"' ∨ quote = '\'') (c : Char) :
    '\n' ∉ encodeChar quote c := by
  rcases encodeChar_cases hquote c with ⟨letter, -, hletter, -, h⟩ | h | ⟨-, hbreak, h⟩
  · rw [h]
    simpa using hletter.symm
  · rw [h]
    exact break_not_mem_escapeCode c
  · rw [h]
    simpa using hbreak.symm

/-- Quoted text holds no line break. -/
theorem break_not_mem_encodeChars (text : List Char) : '\n' ∉ encodeChars text := by
  have hmark : '\n' ≠ mark text := by rcases mark_eq text with h | h <;> rw [h] <;> decide
  simp only [encodeChars, List.cons_append, List.mem_cons, List.mem_append, List.mem_flatMap,
    List.not_mem_nil, or_false, not_or, not_exists, not_and]
  exact ⟨hmark, fun c _ => break_not_mem_encodeChar (mark_eq text) c, hmark⟩

end WorldDoc.Quoted
