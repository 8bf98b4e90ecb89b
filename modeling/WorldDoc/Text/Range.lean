/-!
# Offsets and ranges of a text

Positions in a text count characters. A `TextRange` is a half-open interval of positions whose start
never exceeds its end; the proof is part of the type, so every range that exists is a valid one. A
`SourceText` is the text that ranges point into.
-/

namespace WorldDoc

/-- Why numbers do not form a position or a range. -/
inductive RangeError where
  | negativeSize
  | negativePosition
  | inverted
  deriving DecidableEq, Repr

/-- The wording of a range error. -/
def RangeError.message : RangeError → String
  | .negativeSize => "TextSize cannot be negative"
  | .negativePosition => "TextRange positions cannot be negative"
  | .inverted => "TextRange invariant violated: start > end"

/-- A position from a number that may be negative. -/
def offsetOfInt (n : Int) : Except RangeError Nat :=
  if n < 0 then .error .negativeSize else .ok n.toNat

/-- The characters from position `start` up to but not including position `stop`. -/
@[ext] structure TextRange where
  start : Nat
  stop : Nat
  start_le_stop : start ≤ stop := by omega
  deriving DecidableEq, Repr

namespace TextRange

/-- The empty range at one position. -/
def empty (offset : Nat) : TextRange := ⟨offset, offset, Nat.le_refl _⟩

/-- A range from two numbers. A negative number is reported before an inverted pair. -/
def ofInts (start stop : Int) : Except RangeError TextRange :=
  if start < 0 ∨ stop < 0 then .error .negativePosition
  else if h : start ≤ stop then .ok ⟨start.toNat, stop.toNat, by omega⟩
  else .error .inverted

/-- Whether the range holds no character. -/
def isEmpty (r : TextRange) : Bool := r.start == r.stop

/-- The least range that holds both ranges. -/
def cover (r s : TextRange) : TextRange where
  start := min r.start s.start
  stop := max r.stop s.stop
  start_le_stop := by have := r.start_le_stop; omega

/-- Ranges are ordered by where they start, then by where they end. -/
instance : LT TextRange where
  lt r s := r.start < s.start ∨ (r.start = s.start ∧ r.stop < s.stop)

instance : LE TextRange where
  le r s := r.start < s.start ∨ (r.start = s.start ∧ r.stop ≤ s.stop)

instance (r s : TextRange) : Decidable (r < s) :=
  inferInstanceAs (Decidable (r.start < s.start ∨ (r.start = s.start ∧ r.stop < s.stop)))

instance (r s : TextRange) : Decidable (r ≤ s) :=
  inferInstanceAs (Decidable (r.start < s.start ∨ (r.start = s.start ∧ r.stop ≤ s.stop)))

/-- How a range is written in messages. -/
def display (r : TextRange) : String := s!"TextRange({r.start}, {r.stop})"

@[simp] theorem empty_start (n : Nat) : (empty n).start = n := rfl

@[simp] theorem empty_stop (n : Nat) : (empty n).stop = n := rfl

/-- A range that covers two begins with the earlier of them. -/
@[simp] theorem cover_start (r s : TextRange) : (r.cover s).start = min r.start s.start := rfl

/-- A range that covers two ends with the later of them. -/
@[simp] theorem cover_stop (r s : TextRange) : (r.cover s).stop = max r.stop s.stop := rfl

end TextRange

/-- A text as the array of its characters, so that any range of it can be cut out directly. -/
structure SourceText where
  chars : Array Char

namespace SourceText

/-- The characters of a string as a source text. -/
def ofString (s : String) : SourceText := ⟨s.toList.toArray⟩

/-- The characters of the text in order. -/
def toList (t : SourceText) : List Char := t.chars.toList

/-- The number of characters of the text. -/
def length (t : SourceText) : Nat := t.chars.size

/-- The characters of a range; what lies beyond the end of the text is left out. -/
def slice (t : SourceText) (r : TextRange) : String :=
  String.ofList (t.chars.extract r.start r.stop).toList

/-- A source made of a string has the characters of the string. -/
@[simp] theorem toList_ofString (s : String) : (ofString s).toList = s.toList := rfl

/-- The length of a source counts its characters. -/
@[simp] theorem length_toList (t : SourceText) : t.toList.length = t.length := rfl

/-- A slice drops what lies before the range and keeps as many characters as the range is long. -/
theorem slice_eq (t : SourceText) (r : TextRange) :
    t.slice r = String.ofList ((t.toList.drop r.start).take (r.stop - r.start)) := by
  simp [slice, toList, Array.toList_extract, List.extract_eq_take_drop]

end SourceText

end WorldDoc
