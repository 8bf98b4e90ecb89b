/-!
# Classes of characters

A class of characters is given by its code points, as inclusive ranges in increasing order. The
modules beside this one hold the classes that world documents need, one table each.
-/

namespace WorldDoc

/-- A class of characters: the inclusive ranges of its code points, in increasing order. -/
structure CharClass where
  ranges : List (Nat × Nat)

namespace CharClass

/-- Whether one of the ranges holds `n`. The ranges increase, so the search ends at the first one
that starts above `n`. -/
def covers : List (Nat × Nat) → Nat → Bool
  | [], _ => false
  | (first, last) :: later, n => if n < first then false else n ≤ last || covers later n

/-- Whether a character belongs to the class. -/
def contains (k : CharClass) (c : Char) : Bool := covers k.ranges c.toNat

/-- A covered number lies within one of the ranges. -/
theorem exists_range_of_covers {ranges : List (Nat × Nat)} {n : Nat} (h : covers ranges n = true) :
    ∃ r ∈ ranges, r.1 ≤ n ∧ n ≤ r.2 := by
  induction ranges with
  | nil => simp [covers] at h
  | cons r later ih =>
    obtain ⟨first, last⟩ := r
    simp only [covers] at h
    split at h
    · simp at h
    · rename_i hfirst
      simp only [Bool.or_eq_true, decide_eq_true_eq] at h
      rcases h with hlast | hlater
      · exact ⟨(first, last), by simp, by simpa using hfirst, hlast⟩
      · obtain ⟨r, hr, hb⟩ := ih hlater
        exact ⟨r, by simp [hr], hb⟩

end CharClass

end WorldDoc
