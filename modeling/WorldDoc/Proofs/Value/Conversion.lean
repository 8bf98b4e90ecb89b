import Mathlib.Data.Nat.Digits.Defs
import Mathlib.Data.Rat.Cast.Defs
import WorldDoc.Proofs.Number.Nearest
import WorldDoc.Proofs.Value.Decoding

/-!
# Conversion of numerals

The decoder reads a numeral as the binary number nearest to what the numeral writes
(`Literal.number?_correctly_rounded`), and reads no other text as a number. This holds for any
number of digits and for any exponent: a numeral whose exponent is so great or so small that its
power of ten is not formed is beyond the range of binary numbers.

## Shape of the proof

A decimal number is a mantissa times a power of ten. Within the exponents that are computed it is a
quotient, which the grid rounds (`magnitudeBits_eq`); outside of them the bounds of the range are
compared with `10 ^ 400` (`isRounded_infinity`, `isRounded_zero`). What remains is that whole part,
fraction and power of ten of a numeral are such a mantissa and exponent (`Numeral.isRounded`).
-/

namespace WorldDoc

/-! ## Decimal numbers -/

namespace Binary64

/-- A shift to the left multiplies by a power of two. -/
theorem cast_shiftLeft (n k : Nat) : ((n <<< k : Nat) : ℚ) = n * 2 ^ k := by
  rw [Nat.shiftLeft_eq, Nat.cast_mul, Nat.cast_pow, Nat.cast_ofNat]

/-- The magnitude of a quotient is the quotient rounded on the grid, or infinity beyond the greatest
number. -/
theorem magnitudeBits_eq (n : Nat) {d : Nat} (hd : 0 < d) :
    ∃ b, Rounds ((n : ℚ) / d * unitsPerOne) b ∧ magnitudeBits n d = min infinityBits b := by
  have hscaled : ((n <<< 1074 : Nat) : ℚ) / d = (n : ℚ) / d * unitsPerOne := by
    rw [cast_shiftLeft, cast_unitsPerOne, div_mul_eq_mul_div]
  exact ⟨_, hscaled ▸ rounds_quotient (n <<< 1074) hd, rfl⟩

/-- Every magnitude is rounded to some bits. -/
theorem exists_rounds {r : ℚ} (hr : 0 ≤ r) : ∃ b, Rounds (r * unitsPerOne) b := by
  obtain ⟨b, hb, -⟩ := magnitudeBits_eq r.num.toNat r.den_pos
  have hnum : ((r.num.toNat : Nat) : ℚ) / r.den = r := by
    have hcast : ((r.num.toNat : Nat) : ℚ) = (r.num : ℤ) := by
      exact_mod_cast Int.toNat_of_nonneg (Rat.num_nonneg.mpr hr)
    rw [hcast, Rat.num_div_den]
  exact ⟨b, hnum ▸ hb⟩

/-- The power of two that the bounds of the range are compared with. -/
theorem two_pow_le_ten_pow : (2 : ℚ) ^ 1200 ≤ 10 ^ 400 := by
  have hcube : (2 : ℚ) ^ 1200 = (2 ^ 3) ^ 400 := pow_mul 2 3 400
  rw [hcube]
  exact pow_le_pow_left₀ (by norm_num) (by norm_num) 400

/-- A number beyond the overflow threshold rounds to infinity. -/
theorem isRounded_infinity (sign : Bool) {r : ℚ} (h : overflow ≤ r) (hr : 0 ≤ r) :
    IsRounded sign r (ofSignMagnitude sign infinityBits) := by
  obtain ⟨b, hb⟩ := exists_rounds hr
  have hrounded : IsRounded sign r (ofSignMagnitude sign (min infinityBits b)) := ⟨b, hb, rfl⟩
  have hinfinite := hrounded.infinite_iff.mpr h
  rw [magnitude_ofSignMagnitude sign (Nat.min_le_left ..)] at hinfinite
  rwa [hinfinite] at hrounded

/-- A number this small rounds to zero. -/
theorem isRounded_zero (sign : Bool) {r : ℚ} (h : r ≤ (10 ^ 400)⁻¹) :
    IsRounded sign r (ofSignMagnitude sign 0) := by
  have hunits : (2 : ℚ) * unitsPerOne ≤ 10 ^ 400 := by
    have hsucc : (2 : ℚ) ^ 1075 = 2 * unitsPerOne := by
      rw [cast_unitsPerOne]
      exact pow_succ' 2 1074
    have hpow : (2 : ℚ) ^ 1075 ≤ 2 ^ 1200 := pow_le_pow_right₀ one_le_two (by omega)
    exact hsucc ▸ hpow.trans two_pow_le_ten_pow
  have hscaled : r * (2 * unitsPerOne) ≤ 1 := by
    have hpos : (0 : ℚ) ≤ 2 * unitsPerOne := mul_nonneg zero_le_two (le_of_lt unitsPerOne_pos)
    have hten : (10 : ℚ) ^ 400 ≠ 0 := pow_ne_zero 400 (by norm_num)
    calc r * (2 * unitsPerOne) ≤ (10 ^ 400)⁻¹ * (2 * unitsPerOne) :=
          mul_le_mul_of_nonneg_right h hpos
      _ ≤ (10 ^ 400)⁻¹ * 10 ^ 400 := mul_le_mul_of_nonneg_left hunits (by positivity)
      _ = 1 := inv_mul_cancel₀ hten
  exact ⟨0, rounds_zero (by linarith), rfl⟩

/-- Ten to the power of four hundred is beyond the overflow threshold. -/
theorem overflow_le_ten_pow : overflow ≤ 10 ^ 400 := by
  have hpow : (2 : ℚ) ^ 1024 ≤ 2 ^ 1200 := pow_le_pow_right₀ one_le_two (by omega)
  have hpos : (0 : ℚ) ≤ 2 ^ 970 := by positivity
  rw [overflow]
  exact (sub_le_self _ hpos).trans (hpow.trans two_pow_le_ten_pow)

/-- A decimal number is rounded to the nearest binary one, also beyond the range that is
computed. -/
theorem ofDecimal_isRounded (sign : Bool) {mantissa digits : Nat} (exponent : ℤ)
    (h : mantissa < 10 ^ digits) :
    IsRounded sign (mantissa * 10 ^ exponent) (ofDecimal sign mantissa digits exponent) := by
  have hten : (1 : ℚ) ≤ 10 := by norm_num
  have hnonneg : (0 : ℚ) ≤ mantissa * 10 ^ exponent := by positivity
  rw [ofDecimal]
  split
  · rename_i hzero
    rw [hzero, Nat.cast_zero, zero_mul]
    exact isRounded_zero sign (by positivity)
  · rename_i hpos
    have hone : (1 : ℚ) ≤ mantissa := by exact_mod_cast Nat.one_le_iff_ne_zero.mpr hpos
    split
    · rename_i hlarge
      refine isRounded_infinity sign (overflow_le_ten_pow.trans ?_) hnonneg
      calc (10 : ℚ) ^ 400 = 10 ^ (400 : ℤ) := (zpow_natCast 10 400).symm
        _ ≤ 10 ^ exponent := zpow_le_zpow_right₀ hten hlarge
        _ ≤ mantissa * 10 ^ exponent := le_mul_of_one_le_left (by positivity) hone
    · split
      · rename_i hsmall
        refine isRounded_zero sign ?_
        have hmantissa : (mantissa : ℚ) ≤ 10 ^ (digits : ℤ) := by
          rw [zpow_natCast]
          exact_mod_cast Nat.le_of_lt h
        calc (mantissa : ℚ) * 10 ^ exponent ≤ 10 ^ (digits : ℤ) * 10 ^ exponent :=
              mul_le_mul_of_nonneg_right hmantissa (by positivity)
          _ = 10 ^ (exponent + digits) := by rw [← zpow_add₀ (by norm_num), add_comm]
          _ ≤ 10 ^ (-400 : ℤ) := zpow_le_zpow_right₀ hten hsmall
          _ = (10 ^ 400)⁻¹ := by rw [zpow_neg]; rfl
      · split
        · rename_i hint
          obtain ⟨b, hb, hbits⟩ := magnitudeBits_eq (mantissa * Nat.pow 10 exponent.toNat) Nat.one_pos
          have hpower : ((mantissa * Nat.pow 10 exponent.toNat : Nat) : ℚ) / (1 : Nat) =
              mantissa * 10 ^ exponent := by
            rw [Nat.cast_mul, Nat.cast_one, div_one, ← Int.toNat_of_nonneg hint, zpow_natCast]
            exact congrArg _ (Nat.cast_pow 10 _)
          exact ⟨b, hpower ▸ hb, congrArg _ hbits⟩
        · rename_i hfrac
          obtain ⟨b, hb, hbits⟩ := magnitudeBits_eq mantissa
            (Nat.pow_pos (by decide) : 0 < 10 ^ (-exponent).toNat)
          have hpower : (mantissa : ℚ) / (10 ^ (-exponent).toNat : Nat) = mantissa * 10 ^ exponent := by
            rw [Nat.cast_pow, Nat.cast_ofNat, ← zpow_natCast, Int.toNat_of_nonneg (by omega), zpow_neg,
              div_inv_eq_mul]
          exact ⟨b, hpower ▸ hb, congrArg _ hbits⟩

end Binary64

/-! ## Numerals -/

open Binary64 Lexical

namespace Numeral

/-- The number that digits write in base ten, the last of them counting ones. -/
def ofDigits (chars : List Char) : Nat :=
  Nat.ofDigits 10 (chars.reverse.map fun c => c.toNat - '0'.toNat)

/-- The digits of the fraction, if there is one. -/
def fractionDigits (n : Numeral) : List Char := (n.fraction.map Digits.chars).getD []

/-- The number that a numeral writes, without its sign. -/
def magnitude (n : Numeral) : ℚ :=
  (ofDigits n.whole.chars + ofDigits n.fractionDigits / 10 ^ n.fractionDigits.length) *
    10 ^ (n.power.map PowerOfTen.exponent).getD 0

/-- The number that a numeral writes. -/
def value (n : Numeral) : ℚ := signed n.negative n.magnitude

/-- The decoder's number for some digits is the one that they write. -/
theorem natOfDigits_eq_ofDigits (chars : List Char) : Literal.natOfDigits chars = ofDigits chars := by
  induction chars using List.reverseRecOn with
  | nil => rfl
  | append_singleton chars c ih =>
    rw [ofDigits, List.reverse_concat, List.map_cons, Nat.ofDigits_cons, ← ofDigits, ← ih,
      Literal.natOfDigits, List.foldl_concat, Nat.add_comm]
    rfl

/-- The digits in front count for as many tens as there are digits behind them. -/
theorem ofDigits_append (front back : List Char) :
    ofDigits (front ++ back) = ofDigits front * 10 ^ back.length + ofDigits back := by
  simp only [ofDigits, List.reverse_append, List.map_append, Nat.ofDigits_append, List.length_map,
    List.length_reverse]
  rw [Nat.add_comm, Nat.mul_comm]

/-- So many digits write a number below the power of ten. -/
theorem ofDigits_lt {chars : List Char} (h : ∀ c ∈ chars, isDigit c = true) :
    ofDigits chars < 10 ^ chars.length := by
  have hdigit : ∀ d ∈ chars.reverse.map (fun c => c.toNat - '0'.toNat), d < 10 := by
    intro d hd
    obtain ⟨c, hc, rfl⟩ := List.mem_map.mp hd
    have hbounds := h c (List.mem_reverse.mp hc)
    simp only [isDigit, Bool.and_eq_true, decide_eq_true_eq] at hbounds
    have hnine : c.toNat ≤ '9'.toNat := UInt32.le_iff_toNat_le.mp (Char.le_def.mp hbounds.2)
    exact Nat.lt_of_le_of_lt (Nat.sub_le_sub_right hnine _) (by decide)
  have hlt := Nat.ofDigits_lt_base_pow_length (by decide : 1 < 10) hdigit
  rwa [List.length_map, List.length_reverse] at hlt

/-- The number without its sign is not negative. -/
theorem magnitude_nonneg (n : Numeral) : 0 ≤ n.magnitude := by
  rw [magnitude]
  positivity

/-- The fraction is written in digits. -/
theorem isDigit_of_mem_fractionDigits (n : Numeral) : ∀ c ∈ n.fractionDigits, isDigit c = true := by
  rw [fractionDigits]
  cases n.fraction with
  | none => simp
  | some digits => exact digits.isDigit_of_mem

/-- A numeral is rounded as the number that it writes is: whole part and fraction are one mantissa,
and the exponent is less by the length of the fraction. -/
theorem isRounded (n : Numeral) : IsRounded n.negative n.magnitude n.decimal.toBinary64 := by
  have hdigits := List.forall_mem_append.mpr ⟨n.whole.isDigit_of_mem, n.isDigit_of_mem_fractionDigits⟩
  have hten : (10 : ℚ) ≠ 0 := by norm_num
  have hmagnitude : n.magnitude = ofDigits (n.whole.chars ++ n.fractionDigits) *
      10 ^ ((n.power.map PowerOfTen.exponent).getD 0 - n.fractionDigits.length) := by
    rw [magnitude, ofDigits_append, zpow_sub₀ hten, zpow_natCast]
    push_cast
    field_simp
  have hmantissa := ofDigits_lt hdigits
  rw [hmagnitude]
  rw [← natOfDigits_eq_ofDigits] at hmantissa ⊢
  exact ofDecimal_isRounded n.negative _ hmantissa

end Numeral

/-- The decoder reads numerals and nothing else as numbers. It rounds what a numeral writes
correctly, with the sign of the text; so the order of numbers is kept, and what number comes of a
numeral depends on nothing but what it writes and its sign. -/
theorem Literal.number?_correctly_rounded (text : List Char) :
    (number? text = none ↔ ¬Lexeme.IsNumber text) ∧
      ∀ n : Numeral, n.text = text → ∃ x, number? text = some x ∧ RoundsTo n.negative n.value x ∧
        ∀ (m : Numeral) (y : Binary64), number? m.text = some y →
          (m.value ≤ n.value → y.extended ≤ x.extended) ∧
          (m.value = n.value → m.negative = n.negative → y = x) := by
  have hread (n : Numeral) : number? n.text = some n.decimal.toBinary64 := by
    rw [number?, Numeral.decimal?_text]
    rfl
  refine ⟨?_, ?_⟩
  · rw [← isSome_number?_iff, Option.not_isSome_iff_eq_none]
  · rintro n rfl
    refine ⟨_, hread n, n.isRounded.roundsTo n.magnitude_nonneg, fun m y hy => ?_⟩
    obtain rfl := Option.some.inj ((hread m).symm.trans hy)
    refine ⟨fun hle => extended_le ?_, fun hvalue hsign => ?_⟩
    · exact m.isRounded.signedBits_le n.isRounded m.magnitude_nonneg n.magnitude_nonneg hle
    · have hmagnitude : m.magnitude = n.magnitude := by
        rw [← abs_signed m.negative m.magnitude_nonneg, ← abs_signed n.negative n.magnitude_nonneg]
        exact congrArg _ hvalue
      have hm := m.isRounded
      rw [hmagnitude, hsign] at hm
      exact hm.unique n.isRounded

/-- Halfway between two numbers the even one is read. -/
theorem Literal.number?_at_tie :
    ∃ n : Numeral, n.text = "9007199254740993".toList ∧ n.value = 2 ^ 53 + 1 ∧
      number? n.text = some ⟨0x4340000000000000⟩ ∧
      RoundsTo n.negative n.value ⟨0x4340000000000000⟩ := by
  let n : Numeral := ⟨false, ⟨"9007199254740993".toList, by decide,
    List.all_eq_true.mp (by decide)⟩, none, none⟩
  obtain ⟨x, hx, hrounds, -⟩ := (number?_correctly_rounded n.text).2 n rfl
  have hread : number? n.text = some ⟨0x4340000000000000⟩ := by decide +kernel
  obtain rfl := Option.some.inj (hx.symm.trans hread)
  refine ⟨n, rfl, ?_, hread, hrounds⟩
  have hwhole : Numeral.ofDigits n.whole.chars = 2 ^ 53 + 1 := by decide +kernel
  have hfraction : Numeral.ofDigits n.fractionDigits = 0 := rfl
  show n.magnitude = 2 ^ 53 + 1
  rw [Numeral.magnitude, hwhole, hfraction]
  norm_num [n]

end WorldDoc
