import Mathlib.Algebra.Order.Field.Power
import Mathlib.Order.WithBot
import Mathlib.Tactic.FieldSimp
import WorldDoc.Proofs.Number.Rounding

/-!
# The nearest binary number

What the bits of a number stand for, in the words of the interchange format: a sign, an exponent and
a fraction, with the exponent of zero for what is below the normal numbers and the greatest one for
infinity and for what is no number (`Binary64.value`, `Binary64.extended`). `RoundsTo` says which
number is the correctly rounded one.

Decimal numbers are converted to it (`ofDecimal_isRounded` with `IsRounded.roundsTo`), whatever
their mantissa and exponent are, those included that are not computed because they are beyond the
range.

## Shape of the proof

`IsRounded` says of bits what `RoundsTo` says of values: they are the nearest on the grid
(`Rounds`), cut off at infinity, with a sign. The grid gives order and uniqueness
(`IsRounded.extended_le`, `IsRounded.unique`), and there is only one scale to pass from units to
values, `magnitudeValue_eq`.
-/

namespace WorldDoc.Binary64

/-! ## Values -/

/-- How many of the least positive number make one. -/
def unitsPerOne : Nat := 2 ^ 1074

/-- The magnitude that bits without a sign stand for: a fraction of the least normal number if the
exponent is zero, else one and a fraction, with the exponent counted from 1023. -/
def magnitudeValue (b : Nat) : ℚ :=
  if b / 2 ^ 52 = 0 then (b % 2 ^ 52 : Nat) / 2 ^ 52 * 2 ^ (-1022 : ℤ)
  else (1 + (b % 2 ^ 52 : Nat) / 2 ^ 52) * 2 ^ ((b / 2 ^ 52 : Nat) - 1023 : ℤ)

/-- A magnitude with a sign. -/
def signed {α : Type} [Neg α] (sign : Bool) (magnitude : α) : α :=
  if sign then -magnitude else magnitude

/-- Whether the sign is a minus. -/
def negative (x : Binary64) : Bool := 2 ^ 63 ≤ x.bits.toNat

/-- The bits stand for a number that is finite. -/
def IsFinite (x : Binary64) : Prop := x.magnitude < infinityBits

instance (x : Binary64) : Decidable x.IsFinite := inferInstanceAs (Decidable (_ < _))

/-- The number that the bits stand for, if it is finite. -/
def value (x : Binary64) : ℚ := signed x.negative (magnitudeValue x.magnitude)

/-- The number that the bits stand for, the two infinities being bottom and top. -/
def extended (x : Binary64) : WithBot (WithTop ℚ) :=
  if x.IsFinite then ((x.value : WithTop ℚ) : WithBot (WithTop ℚ))
  else if x.negative then ⊥ else ((⊤ : WithTop ℚ) : WithBot (WithTop ℚ))

/-! ## Correct rounding -/

/-- From here on magnitudes are rounded to infinity: the middle between the greatest number and the
next power of two. -/
def overflow : ℚ := 2 ^ 1024 - 2 ^ 970

/-- No finite number is nearer to `q` than the finite number `x`, and none but an even one has
another as near. -/
structure IsNearest (q : ℚ) (x : Binary64) : Prop where
  isFinite : x.IsFinite
  le : ∀ y : Binary64, y.IsFinite → |x.value - q| ≤ |y.value - q|
  even_of_tie : ∀ y : Binary64, y.IsFinite → |y.value - q| = |x.value - q| → y.value ≠ x.value →
    Even x.magnitude

/-- `x` is the number that `q`, which has this sign even where it is zero, is rounded to. -/
structure RoundsTo (sign : Bool) (q : ℚ) (x : Binary64) : Prop where
  negative_eq : x.negative = sign
  isNaN_eq : x.isNaN = false
  infinite_iff : x.magnitude = infinityBits ↔ overflow ≤ |q|
  nearest : |q| < overflow → IsNearest q x

/-! ## Units -/

/-- The units of one as a rational number. -/
theorem cast_unitsPerOne : (unitsPerOne : ℚ) = 2 ^ 1074 := Nat.cast_pow 2 1074

/-- There are units in one. -/
theorem unitsPerOne_pos : (0 : ℚ) < unitsPerOne := by
  rw [cast_unitsPerOne]
  positivity

/-- A power of two is counted in units by another one. -/
theorem two_zpow_sub (k : Nat) : (2 : ℚ) ^ ((k : ℤ) - 1074) = 2 ^ k / unitsPerOne := by
  rw [zpow_sub₀ two_ne_zero, zpow_natCast, cast_unitsPerOne]
  exact congrArg _ (zpow_natCast 2 1074)

/-- The magnitude that bits stand for is the count of their units. -/
theorem magnitudeValue_eq (b : Nat) : magnitudeValue b = units b / unitsPerOne := by
  have hfraction : (2 : ℚ) ^ 52 ≠ 0 := pow_ne_zero 52 two_ne_zero
  rw [magnitudeValue, units]
  split
  · rename_i hzero
    have hlt : b < 2 ^ 52 := by omega
    rw [if_pos hlt, Nat.mod_eq_of_lt hlt, show (-1022 : ℤ) = (52 : Nat) - 1074 from rfl,
      two_zpow_sub, mul_div_assoc', div_mul_cancel₀ _ hfraction]
  · rename_i hexp
    have hshift : ((b / 2 ^ 52 : Nat) - 1023 : ℤ) = (52 + (b / 2 ^ 52 - 1) : Nat) - 1074 := by
      omega
    rw [if_neg (by omega), hshift, two_zpow_sub, pow_add, mul_div_assoc', ← mul_assoc, add_mul,
      one_mul, div_mul_cancel₀ _ hfraction, Nat.cast_mul, Nat.cast_add, Nat.cast_pow, Nat.cast_pow,
      Nat.cast_ofNat]

/-- The greater the bits, the greater the magnitude. -/
theorem magnitudeValue_le {a b : Nat} : magnitudeValue a ≤ magnitudeValue b ↔ a ≤ b := by
  rw [magnitudeValue_eq, magnitudeValue_eq, div_le_div_iff_of_pos_right unitsPerOne_pos,
    cast_units_le_cast_units]

/-- Bits that are all zero stand for zero. -/
@[simp]
theorem magnitudeValue_zero : magnitudeValue 0 = 0 := by
  rw [magnitudeValue_eq, show units 0 = 0 from rfl, Nat.cast_zero, zero_div]

/-- No magnitude is negative. -/
theorem magnitudeValue_nonneg (b : Nat) : 0 ≤ magnitudeValue b := by
  rw [← magnitudeValue_zero]
  exact magnitudeValue_le.mpr b.zero_le

/-! ## Sign and magnitude -/

section OfSignMagnitude

variable {b : Nat}

/-- A sign in front of a magnitude is its highest bit. -/
theorem toNat_ofSignMagnitude (sign : Bool) (hb : b ≤ infinityBits) :
    (ofSignMagnitude sign b).bits.toNat = if sign then 2 ^ 63 + b else b := by
  have hlt : infinityBits < 2 ^ 63 := by decide
  rw [ofSignMagnitude, UInt64.toNat_ofNat', Nat.mod_eq_of_lt]
  · rfl
  · split <;> omega

/-- A number has the magnitude that it is made of. -/
theorem magnitude_ofSignMagnitude (sign : Bool) (hb : b ≤ infinityBits) :
    (ofSignMagnitude sign b).magnitude = b := by
  have hlt : infinityBits < 2 ^ 63 := by decide
  rw [magnitude, toNat_ofSignMagnitude sign hb]
  show _ % 2 ^ 63 = b
  split <;> omega

/-- A number has the sign that it is made of. -/
theorem negative_ofSignMagnitude (sign : Bool) (hb : b ≤ infinityBits) :
    (ofSignMagnitude sign b).negative = sign := by
  have hlt : infinityBits < 2 ^ 63 := by decide
  rw [negative, toNat_ofSignMagnitude sign hb]
  cases sign
  · simp
    omega
  · simp

end OfSignMagnitude

section Signed

variable {a r : ℚ}

/-- A sign does not change how great a magnitude is. -/
theorem abs_signed (sign : Bool) (hr : 0 ≤ r) : |signed sign r| = r := by
  cases sign
  · exact abs_of_nonneg hr
  · exact (abs_neg r).trans (abs_of_nonneg hr)

/-- Numbers of one sign are as far apart as their magnitudes. -/
theorem abs_signed_sub_signed (sign : Bool) : |signed sign a - signed sign r| = |a - r| := by
  cases sign
  · rfl
  · show |-a - -r| = |a - r|
    rw [neg_sub_neg, abs_sub_comm]

/-- Magnitudes with different signs are as far from each other as both of them from zero. -/
theorem abs_signed_sub_signed_of_ne {s t : Bool} (hst : s ≠ t) (ha : 0 ≤ a) (hr : 0 ≤ r) :
    |signed s a - signed t r| = a + r := by
  cases s <;> cases t
  · exact absurd rfl hst
  · show |a - -r| = a + r
    rw [sub_neg_eq_add, abs_of_nonneg (by linarith)]
  · show |-a - r| = a + r
    rw [← neg_add', abs_neg, abs_of_nonneg (by linarith)]
  · exact absurd rfl hst

end Signed

/-! ## The order of the bits -/

/-- The bits of the magnitude with the sign. -/
def signedBits (x : Binary64) : ℤ := signed x.negative (x.magnitude : ℤ)

/-- The order of numbers is the order of their bits. -/
theorem value_le {x y : Binary64} (h : x.signedBits ≤ y.signedBits) : x.value ≤ y.value := by
  have hx := magnitudeValue_nonneg x.magnitude
  have hy := magnitudeValue_nonneg y.magnitude
  simp only [signedBits, signed, value] at h ⊢
  cases hsx : x.negative <;> cases hsy : y.negative <;>
    simp only [hsx, hsy, if_true, if_false, Bool.false_eq_true] at h ⊢
  · exact magnitudeValue_le.mpr (by omega)
  · rw [show x.magnitude = 0 by omega, show y.magnitude = 0 by omega]
    simp
  · linarith
  · exact neg_le_neg (magnitudeValue_le.mpr (by omega))

/-- Numbers are in the order of their bits, with the sign. -/
theorem extended_le {x y : Binary64} (h : x.signedBits ≤ y.signedBits) :
    x.extended ≤ y.extended := by
  have hvalue := value_le h
  have hpos : 0 < infinityBits := by decide
  simp only [signedBits, signed] at h
  by_cases hx : x.IsFinite
  · rw [extended, if_pos hx, extended]
    by_cases hy : y.IsFinite
    · rw [if_pos hy]
      exact WithBot.coe_le_coe.mpr (WithTop.coe_le_coe.mpr hvalue)
    · have hsy : y.negative = false := by
        rw [← Bool.not_eq_true]
        intro hsy
        rw [if_pos hsy] at h
        unfold IsFinite at hx hy
        split at h <;> omega
      rw [if_neg hy, hsy, if_neg Bool.false_ne_true]
      exact WithBot.coe_le_coe.mpr le_top
  · rw [extended, if_neg hx]
    split
    · exact bot_le
    · rename_i hsx
      have hbits : ¬y.IsFinite ∧ y.negative = false := by
        rw [if_neg hsx] at h
        unfold IsFinite at hx ⊢
        rw [← Bool.not_eq_true]
        split at h
        · omega
        · rename_i hsy
          exact ⟨by omega, hsy⟩
      rw [extended, if_neg hbits.1, hbits.2, if_neg Bool.false_ne_true]

/-! ## Rounding on the grid -/

/-- The bits of `x` are the nearest ones to a magnitude, cut off at infinity, with a sign. -/
def IsRounded (sign : Bool) (r : ℚ) (x : Binary64) : Prop :=
  ∃ b, Rounds (r * unitsPerOne) b ∧ x = ofSignMagnitude sign (min infinityBits b)

section IsRounded

variable {s t : Bool} {r r' : ℚ} {x y : Binary64}

/-- What is rounded keeps its sign. -/
theorem IsRounded.negative_eq (h : IsRounded s r x) : x.negative = s := by
  obtain ⟨b, -, rfl⟩ := h
  exact negative_ofSignMagnitude s (Nat.min_le_left ..)

/-- What is rounded is infinite at most. -/
theorem IsRounded.magnitude_le (h : IsRounded s r x) : x.magnitude ≤ infinityBits := by
  obtain ⟨b, -, rfl⟩ := h
  rw [magnitude_ofSignMagnitude s (Nat.min_le_left ..)]
  exact Nat.min_le_left ..

/-- Rounding keeps the order, across the signs too. -/
theorem IsRounded.signedBits_le (hx : IsRounded s r x) (hy : IsRounded t r' y) (hr : 0 ≤ r)
    (hr' : 0 ≤ r') (hle : signed s r ≤ signed t r') : x.signedBits ≤ y.signedBits := by
  have hmono {q q' : ℚ} {b c : Nat} (hb : Rounds (q * unitsPerOne) b)
      (hc : Rounds (q' * unitsPerOne) c) (hqq' : q ≤ q') : min infinityBits b ≤ min infinityBits c :=
    min_le_min_left _ (hb.le hc (mul_le_mul_of_nonneg_right hqq' (le_of_lt unitsPerOne_pos)))
  obtain ⟨b, hb, rfl⟩ := hx
  obtain ⟨c, hc, rfl⟩ := hy
  simp only [signedBits, negative_ofSignMagnitude _ (Nat.min_le_left ..),
    magnitude_ofSignMagnitude _ (Nat.min_le_left ..)]
  cases s <;> cases t <;> simp only [signed, if_true, if_false, Bool.false_eq_true] at hle ⊢
  · have := hmono hb hc hle
    omega
  · -- both are zero
    obtain rfl : r = 0 := by linarith
    obtain rfl : r' = 0 := by linarith
    rw [zero_mul] at hb hc
    rw [hb.unique (rounds_zero (by simp)), hc.unique (rounds_zero (by simp))]
    simp
  · omega
  · have := hmono hc hb (neg_le_neg_iff.mp hle)
    omega

/-- A magnitude and a sign are rounded to one number. -/
theorem IsRounded.unique (hx : IsRounded s r x) (hy : IsRounded s r y) : x = y := by
  obtain ⟨b, hb, rfl⟩ := hx
  obtain ⟨c, hc, rfl⟩ := hy
  rw [hb.unique hc]

/-- In units, twice the magnitude of overflow is the sum of the two that it lies between. -/
theorem two_mul_overflow : 2 * (overflow * unitsPerOne) = ((2 ^ 54 - 1) * 2 ^ 2045 : Nat) := by
  have hhigh : (2 : ℚ) ^ 1024 = 2 ^ 54 * 2 ^ 970 := pow_add 2 54 970
  have hunits : (2 : ℚ) ^ 2045 = 2 * (2 ^ 970 * 2 ^ 1074) := by
    rw [← pow_add]
    exact pow_succ' 2 2044
  rw [overflow, cast_unitsPerOne, Nat.cast_mul, Nat.cast_pow, Nat.cast_ofNat, hunits, hhigh,
    Nat.cast_sub Nat.one_le_two_pow, Nat.cast_pow, Nat.cast_ofNat, Nat.cast_one]
  generalize (2 : ℚ) ^ 970 = u
  generalize (2 : ℚ) ^ 1074 = v
  ring

/-- What is rounded is infinite exactly from the bound on. -/
theorem IsRounded.infinite_iff (h : IsRounded s r x) :
    x.magnitude = infinityBits ↔ overflow ≤ r := by
  obtain ⟨b, hb, rfl⟩ := h
  rw [magnitude_ofSignMagnitude _ (Nat.min_le_left ..), min_eq_left_iff, hb.infinityBits_le_iff,
    ← two_mul_overflow, mul_le_mul_iff_right₀ two_pos, mul_le_mul_iff_left₀ unitsPerOne_pos]

/-- A distance between magnitudes is one between units, scaled. -/
theorem abs_magnitudeValue_sub (b : Nat) (r : ℚ) :
    |magnitudeValue b - r| = |(units b : ℚ) - r * unitsPerOne| / unitsPerOne := by
  rw [magnitudeValue_eq, ← abs_of_pos unitsPerOne_pos, ← abs_div, sub_div, abs_of_pos unitsPerOne_pos,
    mul_div_cancel_right₀ _ (ne_of_gt unitsPerOne_pos)]

/-- What is nearest on the grid is nearest of all magnitudes. -/
theorem Rounds.magnitude_nearest {b : Nat} (h : Rounds (r * unitsPerOne) b) (c : Nat) :
    |magnitudeValue b - r| ≤ |magnitudeValue c - r| ∧
      (|magnitudeValue c - r| = |magnitudeValue b - r| → c = b ∨ Even b) := by
  obtain ⟨hle, htie⟩ := h.nearest c
  rw [abs_magnitudeValue_sub, abs_magnitudeValue_sub]
  refine ⟨div_le_div_of_nonneg_right hle (le_of_lt unitsPerOne_pos), fun heq => htie ?_⟩
  exact (div_left_inj' (ne_of_gt unitsPerOne_pos)).mp heq

/-- A number with the same sign is as far as its magnitude; one with the other sign is farther. -/
theorem IsRounded.isNearest (h : IsRounded s r x) (hr : 0 ≤ r) (hx : x.IsFinite) :
    IsNearest (signed s r) x := by
  obtain ⟨b, hb, rfl⟩ := h
  have hbits := magnitude_ofSignMagnitude s (Nat.min_le_left infinityBits b)
  have hfinite := hx
  rw [IsFinite, hbits] at hfinite
  rw [min_eq_right (by omega)] at hx hbits ⊢
  have hvalue : (ofSignMagnitude s b).value = signed s (magnitudeValue b) := by
    rw [value, hbits, negative_ofSignMagnitude s (by omega)]
  refine ⟨hx, fun y _ => ?_, fun y _ htie hne => ?_⟩
  all_goals
    obtain ⟨hle, heven⟩ := hb.magnitude_nearest y.magnitude
    have hy := magnitudeValue_nonneg y.magnitude
  · rw [hvalue, abs_signed_sub_signed]
    by_cases hsign : y.negative = s
    · rwa [value, hsign, abs_signed_sub_signed]
    · rw [value, abs_signed_sub_signed_of_ne hsign hy hr]
      exact hle.trans (abs_sub_le_iff.mpr ⟨by linarith, by linarith⟩)
  · rw [hvalue] at htie hne
    rw [abs_signed_sub_signed] at htie
    rw [hbits]
    by_cases hsign : y.negative = s
    · rw [value, hsign, abs_signed_sub_signed] at htie
      rcases heven htie with heq | heven
      · exact absurd (by rw [value, hsign, heq]) hne
      · exact heven
    · -- zero is not farther, so that the number is zero, with the other sign
      rw [value, abs_signed_sub_signed_of_ne hsign hy hr] at htie
      have hzero := (hb.magnitude_nearest 0).1
      rw [magnitudeValue_zero, zero_sub, abs_neg, abs_of_nonneg hr] at hzero
      have hy0 : magnitudeValue y.magnitude = 0 := by linarith
      rw [hy0, zero_sub, abs_neg, abs_of_nonneg hr] at heven
      rcases heven (by linarith) with heq | heven
      · have : b ≤ 0 := by
          rw [← magnitudeValue_le, ← heq, hy0, magnitudeValue_zero]
        rw [Nat.le_zero.mp this]
        exact Even.zero
      · exact heven

/-- Bits that are nearest to a magnitude stand for the number that it is rounded to. -/
theorem IsRounded.roundsTo (h : IsRounded s r x) (hr : 0 ≤ r) : RoundsTo s (signed s r) x where
  negative_eq := h.negative_eq
  isNaN_eq := by
    rw [isNaN, decide_eq_false_iff_not, not_lt]
    exact h.magnitude_le
  infinite_iff := by rw [h.infinite_iff, abs_signed s hr]
  nearest hlt := by
    rw [abs_signed s hr] at hlt
    refine h.isNearest hr (lt_of_le_of_ne h.magnitude_le fun heq => ?_)
    exact absurd (h.infinite_iff.mp heq) (not_le.mpr hlt)

end IsRounded

end WorldDoc.Binary64
