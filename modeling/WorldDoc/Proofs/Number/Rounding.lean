import Mathlib.Algebra.Order.Field.Basic
import Mathlib.Algebra.Order.Ring.Abs
import Mathlib.Algebra.Order.Ring.Unbundled.Rat
import Mathlib.Algebra.Ring.Parity
import Mathlib.Tactic.Linarith
import Mathlib.Tactic.Positivity
import Mathlib.Tactic.Ring
import WorldDoc.Number.Binary64

/-!
# Rounding on the grid of binary numbers

All bits without a sign, those above infinity included, stand for a whole number of units, which are
the least positive number (`units`). On this grid the bits nearest to a magnitude are those that lie
between the middles to their two neighbours, and at a middle the even ones (`Rounds`).

The rounded quotient that a conversion computes is nearest (`rounds_quotient`): its carry into the
exponent, its magnitudes below the normal numbers and its overflow need no case of their own.

## Shape of the proof

Bits are an exponent and a count of steps, and the count may already be the first of the next
exponent (`units_add`). So the bits after any others are one step farther, and everything else is
said of neighbours: what lies between two of them is rounded to one of the two
(`rounds_of_between`), and a quotient lies between the count that a division with rest leaves and
the next.
-/

namespace WorldDoc.Binary64

/-- The magnitude that some bits without a sign stand for, counted in units of the least positive
number. -/
def units (b : Nat) : Nat :=
  if b < 2 ^ 52 then b else (2 ^ 52 + b % 2 ^ 52) * 2 ^ (b / 2 ^ 52 - 1)

/-- Bits that are put together from an exponent and a count of the steps that go with it. The count
may be that of the next exponent already. -/
theorem units_add {e k : Nat} (hk : k ≤ 2 ^ 53) (he : e = 0 ∨ 2 ^ 52 ≤ k) :
    units (e * 2 ^ 52 + k) = k * 2 ^ e := by
  rcases Nat.lt_or_ge k (2 ^ 52) with hsmall | hlarge
  · obtain rfl : e = 0 := by omega
    rw [units, if_pos (by omega), Nat.zero_mul, Nat.zero_add, Nat.pow_zero, Nat.mul_one]
  · rw [units, if_neg (by omega)]
    rcases Nat.lt_or_eq_of_le hk with hlt | rfl
    · have hdiv : (e * 2 ^ 52 + k) / 2 ^ 52 = e + 1 := by omega
      have hmod : (e * 2 ^ 52 + k) % 2 ^ 52 = k - 2 ^ 52 := by omega
      rw [hdiv, hmod, Nat.add_sub_cancel, Nat.add_sub_cancel' hlarge]
    · have hdiv : (e * 2 ^ 52 + 2 ^ 53) / 2 ^ 52 = e + 2 := by omega
      have hmod : (e * 2 ^ 52 + 2 ^ 53) % 2 ^ 52 = 0 := by omega
      rw [hdiv, hmod, show e + 2 - 1 = e + 1 from rfl, Nat.pow_succ]
      ring

/-- All bits are put together like this, and leave room for the next count. -/
theorem exists_count (b : Nat) : ∃ e k, b = e * 2 ^ 52 + k ∧ k < 2 ^ 53 ∧ (e = 0 ∨ 2 ^ 52 ≤ k) := by
  rcases Nat.lt_or_ge b (2 ^ 52) with hsmall | hlarge
  · exact ⟨0, b, by omega, by omega, Or.inl rfl⟩
  · exact ⟨b / 2 ^ 52 - 1, 2 ^ 52 + b % 2 ^ 52, by omega, by omega, Or.inr (by omega)⟩

/-- Greater bits stand for more units. -/
theorem units_strictMono : StrictMono units := by
  refine strictMono_nat_of_lt_succ fun b => ?_
  obtain ⟨e, k, rfl, hk, he⟩ := exists_count b
  rw [units_add (Nat.le_of_lt hk) he, Nat.add_assoc, units_add hk (by omega)]
  exact Nat.mul_lt_mul_of_pos_right (Nat.lt_succ_self k) (Nat.two_pow_pos e)

/-! ## Rounding to the nearest -/

/-- The bits `b` are the nearest to a magnitude of `q` units: it lies between the middle of `b` and
its lower neighbour and the middle of `b` and its upper one, and meets neither middle unless `b` is
even. -/
structure Rounds (q : ℚ) (b : Nat) : Prop where
  above : ∀ a, b = a + 1 → (units a + units b : ℚ) ≤ 2 * q
  below : 2 * q ≤ units b + units (b + 1)
  even_of_above : ∀ a, b = a + 1 → (units a + units b : ℚ) = 2 * q → Even b
  even_of_below : 2 * q = units b + units (b + 1) → Even b

section Rounds

variable {q r : ℚ} {a b c : Nat}

/-- As rational numbers units are in the order of their bits. -/
theorem cast_units_le_cast_units : (units a : ℚ) ≤ units b ↔ a ≤ b := by
  rw [Nat.cast_le, units_strictMono.le_iff_le]

/-- As rational numbers units are in the strict order of their bits. -/
theorem cast_units_lt_cast_units : (units a : ℚ) < units b ↔ a < b := by
  rw [Nat.cast_lt, units_strictMono.lt_iff_lt]

/-- Rounding keeps the order of magnitudes. -/
theorem Rounds.le (hb : Rounds q b) (hc : Rounds r c) (hqr : q ≤ r) : b ≤ c := by
  by_contra hlt
  obtain ⟨a, rfl⟩ : ∃ a, b = a + 1 := ⟨b - 1, by omega⟩
  have hca : c ≤ a := by omega
  -- both magnitudes lie at the one middle between the two, which only one of them may meet
  have habove := hb.above a rfl
  have hbelow := hc.below
  have hlow := cast_units_le_cast_units.mpr hca
  have hhigh := cast_units_le_cast_units.mpr (Nat.succ_le_succ hca)
  obtain rfl : c = a := by
    refine Nat.le_antisymm hca (Nat.le_of_not_lt fun h => ?_)
    have := cast_units_lt_cast_units.mpr h
    linarith
  have heven := hb.even_of_above c rfl (by linarith)
  have hodd := hc.even_of_below (by linarith)
  exact Nat.even_add_one.mp heven hodd

/-- No magnitude is rounded to two different bits. -/
theorem Rounds.unique (hb : Rounds q b) (hc : Rounds q c) : b = c :=
  Nat.le_antisymm (hb.le hc (le_refl q)) (hc.le hb (le_refl q))

/-- Up to half a unit everything is rounded to zero, which has no neighbour below it. -/
theorem rounds_zero (h : 2 * q ≤ 1) : Rounds q 0 where
  above _ ha := absurd ha (by simp)
  below := h.trans_eq (by norm_num [units])
  even_of_above _ ha := absurd ha (by simp)
  even_of_below _ := Even.zero

/-- No bits are nearer than the nearest, and others that are as near are the same or leave it
even. -/
theorem Rounds.nearest (h : Rounds q b) (c : Nat) :
    |(units b : ℚ) - q| ≤ |(units c : ℚ) - q| ∧
      (|(units c : ℚ) - q| = |(units b : ℚ) - q| → c = b ∨ Even b) := by
  rcases Nat.lt_trichotomy c b with hlt | rfl | hlt
  · obtain ⟨a, rfl⟩ : ∃ a, b = a + 1 := ⟨b - 1, by omega⟩
    have habove := h.above a rfl
    have hca := cast_units_le_cast_units.mpr (Nat.le_of_lt_succ hlt)
    have hab := cast_units_lt_cast_units.mpr (Nat.lt_succ_self a)
    have hc : |(units c : ℚ) - q| = q - units c := by
      rw [abs_sub_comm, abs_of_nonneg (by linarith)]
    rw [hc]
    refine ⟨abs_le.mpr ⟨by linarith, by linarith⟩, fun htie => Or.inr ?_⟩
    rcases abs_cases ((units (a + 1) : ℚ) - q) with ⟨habs, -⟩ | ⟨habs, -⟩
    · exact h.even_of_above a rfl (by linarith)
    · linarith
  · exact ⟨le_refl _, fun _ => Or.inl rfl⟩
  · have hbelow := h.below
    have hbc := cast_units_le_cast_units.mpr (Nat.succ_le_of_lt hlt)
    have hab := cast_units_lt_cast_units.mpr (Nat.lt_succ_self b)
    have hc : |(units c : ℚ) - q| = units c - q := abs_of_nonneg (by linarith)
    rw [hc]
    refine ⟨abs_le.mpr ⟨by linarith, by linarith⟩, fun htie => Or.inr ?_⟩
    rcases abs_cases ((units b : ℚ) - q) with ⟨habs, -⟩ | ⟨habs, -⟩
    · linarith
    · exact h.even_of_below (by linarith)

/-- Of two neighbours around a magnitude the lower one is the nearest below their middle, the upper
one above it, and the even one at it. -/
theorem rounds_of_between (hlow : (units b : ℚ) ≤ q) (hhigh : q ≤ units (b + 1)) :
    (2 * q < units b + units (b + 1) → Rounds q b) ∧
      ((units b + units (b + 1) : ℚ) < 2 * q → Rounds q (b + 1)) ∧
      (2 * q = units b + units (b + 1) → Rounds q (b + b % 2)) := by
  have hlower (hmiddle : 2 * q ≤ units b + units (b + 1))
      (heven : 2 * q = units b + units (b + 1) → Even b) : Rounds q b := by
    refine ⟨?_, hmiddle, ?_, heven⟩
    all_goals
      rintro a rfl
      have hab := cast_units_lt_cast_units.mpr (Nat.lt_succ_self a)
    · linarith
    · intro htie
      linarith
  have hupper (hmiddle : (units b + units (b + 1) : ℚ) ≤ 2 * q)
      (heven : (units b + units (b + 1) : ℚ) = 2 * q → Even (b + 1)) : Rounds q (b + 1) := by
    have hnext := cast_units_lt_cast_units.mpr (Nat.lt_succ_self (b + 1))
    refine ⟨?_, by linarith, ?_, fun htie => by linarith⟩
    all_goals
      rintro a ha
      obtain rfl : b = a := Nat.succ.inj ha
    · exact hmiddle
    · exact heven
  refine ⟨fun h => hlower (le_of_lt h) fun heq => absurd heq (ne_of_lt h),
    fun h => hupper (le_of_lt h) fun heq => absurd heq (ne_of_lt h), fun h => ?_⟩
  rcases Nat.mod_two_eq_zero_or_one b with hmod | hmod
  · rw [hmod]
    exact hlower (le_of_eq h) fun _ => Nat.even_iff.mpr hmod
  · rw [hmod]
    exact hupper (le_of_eq h.symm) fun _ => Nat.even_add_one.mpr (Nat.not_even_iff.mpr hmod)

end Rounds

/-! ## Rounding of quotients -/

/-- The exponent of a quotient is the one at which its leading bits fill the count. -/
theorem count_bounds (m : Nat) : m / 2 ^ (Nat.log2 m - 52) < 2 ^ 53 ∧
    (Nat.log2 m - 52 = 0 ∨ 2 ^ 52 ≤ m / 2 ^ (Nat.log2 m - 52)) := by
  constructor
  · refine Nat.div_lt_of_lt_mul (lt_of_lt_of_le (Nat.lt_log2_self (n := m)) ?_)
    rw [← Nat.pow_add]
    exact Nat.pow_le_pow_right (by decide) (by omega)
  · rcases Nat.eq_zero_or_pos (Nat.log2 m - 52) with hzero | hpos
    · exact Or.inl hzero
    · refine Or.inr ((Nat.le_div_iff_mul_le (Nat.two_pow_pos _)).mpr ?_)
      have hne : m ≠ 0 := by
        rintro rfl
        simp at hpos
      rw [← Nat.pow_add, Nat.add_sub_cancel' (by omega)]
      exact Nat.log2_self_le hne

/-- The quotient of a division with rest, as far as it is counted in steps of `2 ^ e`. -/
theorem div_eq_count_add {s d e : Nat} (hd : 0 < d) :
    (s : ℚ) / d = (s / (d * 2 ^ e) : Nat) * 2 ^ e + (s % (d * 2 ^ e) : Nat) / d := by
  have hsplit : (s : ℚ) = d * 2 ^ e * (s / (d * 2 ^ e) : Nat) + (s % (d * 2 ^ e) : Nat) := by
    exact_mod_cast (Nat.div_add_mod s (d * 2 ^ e)).symm
  have hne : (d : ℚ) ≠ 0 := by exact_mod_cast Nat.ne_of_gt hd
  rw [div_eq_iff hne, add_mul, div_mul_cancel₀ _ hne]
  linarith

/-- Of a quotient of units the leading bits are kept, and what does not fit is rounded. -/
theorem rounds_quotient (s : Nat) {d : Nat} (hd : 0 < d) :
    Rounds ((s : ℚ) / d) (((Nat.log2 (s / d) - 52) <<< 52) +
      roundDiv s (d <<< (Nat.log2 (s / d) - 52))) := by
  obtain ⟨hk, he⟩ := count_bounds (s / d)
  rw [Nat.shiftLeft_eq, Nat.shiftLeft_eq]
  generalize Nat.log2 (s / d) - 52 = e at hk he ⊢
  rw [Nat.div_div_eq_div_mul] at hk he
  have hrest : s % (d * 2 ^ e) < d * 2 ^ e := Nat.mod_lt s (Nat.mul_pos hd (Nat.two_pow_pos e))
  rw [div_eq_count_add (e := e) hd, roundDiv]
  generalize s / (d * 2 ^ e) = k at *
  generalize s % (d * 2 ^ e) = rest at *
  obtain ⟨b, hb⟩ : ∃ b, b = e * 2 ^ 52 + k := ⟨_, rfl⟩
  have hnext : b + 1 = e * 2 ^ 52 + (k + 1) := by omega
  have hparity : b + b % 2 = e * 2 ^ 52 + (k + k % 2) := by omega
  -- the magnitude lies between the count of whole steps and the next one, by the rest of a step
  have hlow : (units b : ℚ) = k * 2 ^ e := by
    rw [hb, units_add (Nat.le_of_lt hk) he]
    push_cast
    rfl
  have hhigh : (units (b + 1) : ℚ) = k * 2 ^ e + 2 ^ e := by
    rw [hnext, units_add hk (by omega)]
    push_cast
    ring
  have hd' : (0 : ℚ) < d := by exact_mod_cast hd
  have hstep (c : Nat) : c < d * 2 ^ e ↔ (c : ℚ) / d < 2 ^ e := by
    rw [div_lt_iff₀' hd']
    exact_mod_cast Iff.rfl
  have hstep' (c : Nat) : d * 2 ^ e < c ↔ (2 ^ e : ℚ) < c / d := by
    rw [lt_div_iff₀' hd']
    exact_mod_cast Iff.rfl
  have hnonneg : (0 : ℚ) ≤ rest / d := by positivity
  have hbelow := (hstep rest).mp hrest
  have hdouble : ((2 * rest : Nat) : ℚ) / d = 2 * (rest / d) := by
    rw [Nat.cast_mul, Nat.cast_ofNat, mul_div_assoc]
  obtain ⟨hless, hmore, htie⟩ := rounds_of_between (b := b) (q := k * 2 ^ e + (rest : ℚ) / d)
    (by linarith) (by linarith)
  rw [hlow, hhigh] at hless hmore htie
  rw [hb] at hless
  rw [hnext] at hmore
  rw [hparity] at htie
  split
  · rename_i hlt
    rw [hstep, hdouble] at hlt
    exact hless (by linarith)
  · rename_i hnlt
    split
    · rename_i hgt
      rw [hstep', hdouble] at hgt
      exact hmore (by linarith)
    · rename_i hngt
      rw [hstep, hdouble, not_lt] at hnlt
      rw [hstep', hdouble, not_lt] at hngt
      exact htie (by linarith)

/-! ## Overflow -/

section Overflow

variable {q : ℚ} {a b : Nat}

/-- From the middle between odd bits and the next ones on, a magnitude is rounded beyond the odd
ones. -/
theorem Rounds.lt_iff_of_odd (h : Rounds q b) (hodd : ¬Even a) :
    a < b ↔ (units a + units (a + 1) : ℚ) ≤ 2 * q := by
  constructor
  · intro hlt
    obtain ⟨c, rfl⟩ : ∃ c, b = c + 1 := ⟨b - 1, by omega⟩
    have habove := h.above c rfl
    have hlow := cast_units_le_cast_units.mpr (Nat.le_of_lt_succ hlt)
    have hhigh := cast_units_le_cast_units.mpr (Nat.succ_le_of_lt hlt)
    linarith
  · intro hle
    by_contra hba
    have hbelow := h.below
    have hlow := cast_units_le_cast_units.mpr (Nat.le_of_not_lt hba)
    have hhigh := cast_units_le_cast_units.mpr (Nat.succ_le_succ (Nat.le_of_not_lt hba))
    obtain rfl : b = a := by
      refine Nat.le_antisymm (Nat.le_of_not_lt hba) (Nat.le_of_not_lt fun hlt => ?_)
      have := cast_units_lt_cast_units.mpr hlt
      linarith
    exact hodd (h.even_of_below (by linarith))

/-- The middle between the greatest number and what the bits of infinity would stand for. -/
theorem units_overflow :
    units (infinityBits - 1) + units (infinityBits - 1 + 1) = (2 ^ 54 - 1) * 2 ^ 2045 := by
  have hbelow : infinityBits - 1 = 2045 * 2 ^ 52 + (2 ^ 53 - 1) := by decide
  have hbits : infinityBits - 1 + 1 = 2045 * 2 ^ 52 + 2 ^ 53 := by decide
  rw [hbits, hbelow, units_add (by decide) (Or.inr (by decide)),
    units_add (by decide) (Or.inr (by decide)), ← Nat.add_mul]
  exact congrArg (fun count : Nat => count * 2 ^ 2045) (by decide)

/-- A magnitude is rounded to infinity from that middle on. -/
theorem Rounds.infinityBits_le_iff (h : Rounds q b) :
    infinityBits ≤ b ↔ (((2 ^ 54 - 1) * 2 ^ 2045 : Nat) : ℚ) ≤ 2 * q := by
  have hlt : infinityBits ≤ b ↔ infinityBits - 1 < b := by
    unfold infinityBits
    omega
  rw [hlt, h.lt_iff_of_odd (a := infinityBits - 1) (by decide), ← units_overflow, Nat.cast_add]

end Overflow

end WorldDoc.Binary64
