import Mathlib.Data.Int.ConditionallyCompleteOrder
import Mathlib.Data.Prod.Lex
import Mathlib.Order.Bounds.Basic
import Mathlib.Order.ConditionallyCompleteLattice.Basic
import Mathlib.Order.Monotone.Basic
import WorldDoc.Text.Position

/-!
# Positions are exact

The line and column of an offset say how many line feeds stand before it and how far it is from the
last of them. No two offsets of a text have the same position, and offsets are ordered as their
positions are (`lineCol_exact_and_invertible`).

## Shape of the proof

A text that is cut in two has the line starts of its first part, all within that part, and then
others that lie beyond (`starts_append`). So the starts that are passed at an offset are those of
the text up to there (`takeWhile_starts`), and nothing else of the index plays a part. The starts
increase, so the last one passed is the greatest (`isGreatest_lastStart`), and the number of the
line alone leads back to it (`getElem?_starts`). Order of positions follows: lines can only go up,
and within one line the columns are counted from one start.
-/

namespace WorldDoc

/-- What positions are ordered by: the line, and within a line the column. -/
def LineCol.rank (p : LineCol) : Nat ×ₗ Nat := toLex (p.line, p.column)

namespace LineIndex

variable {text : List Char} {m n s v : Nat}

/-! ## Where lines start -/

/-- Where the lines begin that the line feeds of a text at `offset` end. -/
def startsBehind (offset : Nat) (text : List Char) : List Nat :=
  (text.zipIdx offset).filterMap fun (c, i) => if c = '\n' then some (i + 1) else none

/-- The first line begins at the beginning, and every other behind a line feed. -/
theorem starts_ofText (text : List Char) : (ofText text).starts = 0 :: startsBehind 0 text := rfl

/-- The lines begin piece by piece. -/
theorem startsBehind_append (offset : Nat) (before later : List Char) :
    startsBehind offset (before ++ later) =
      startsBehind offset before ++ startsBehind (offset + before.length) later := by
  rw [startsBehind, List.zipIdx_append, List.filterMap_append]
  rfl

/-- A line begins behind a character exactly if that is a line feed. -/
theorem startsBehind_cons (offset : Nat) (c : Char) (rest : List Char) :
    startsBehind offset (c :: rest) =
      (if c = '\n' then [offset + 1] else []) ++ startsBehind (offset + 1) rest := by
  rw [← List.singleton_append, startsBehind_append]
  by_cases hc : c = '\n' <;> simp [startsBehind, hc]

/-- The starts behind an offset are the places right behind the line feeds. -/
theorem mem_startsBehind_iff {offset : Nat} :
    s ∈ startsBehind offset text ↔ ∃ i, text[i]? = some '\n' ∧ s = offset + i + 1 := by
  simp only [startsBehind, List.mem_filterMap, Prod.exists, List.mem_zipIdx_iff_le_and_getElem?_sub,
    Option.ite_none_right_eq_some, Option.some.injEq]
  constructor
  · rintro ⟨c, i, ⟨hle, hc⟩, rfl, rfl⟩
    exact ⟨i - offset, hc, by omega⟩
  · rintro ⟨i, hi, rfl⟩
    exact ⟨'\n', offset + i, ⟨by omega, by rwa [Nat.add_sub_cancel_left]⟩, rfl, rfl⟩

/-- The starts are the beginning of the text and the places right behind its line feeds. -/
theorem mem_starts_iff :
    s ∈ (ofText text).starts ↔ s = 0 ∨ ∃ i, text[i]? = some '\n' ∧ s = i + 1 := by
  rw [starts_ofText, List.mem_cons, mem_startsBehind_iff]
  simp only [Nat.zero_add]

/-- No line begins beyond the end of the text. -/
theorem le_length_of_mem_starts (h : s ∈ (ofText text).starts) : s ≤ text.length := by
  rcases mem_starts_iff.mp h with rfl | ⟨i, hi, rfl⟩
  · exact Nat.zero_le _
  · exact (List.getElem?_eq_some_iff.mp hi).1

/-- There is one line more than there are line feeds. -/
theorem length_starts (text : List Char) : (ofText text).starts.length = 1 + text.count '\n' := by
  have hbehind (offset : Nat) : (startsBehind offset text).length = text.count '\n' := by
    induction text generalizing offset with
    | nil => rfl
    | cons c rest ih =>
      rw [startsBehind_cons, List.length_append, ih, List.count_cons]
      by_cases hc : c = '\n' <;> simp [hc, Nat.add_comm]
  rw [starts_ofText, List.length_cons, hbehind, Nat.add_comm]

/-- The starts are in strictly ascending order. -/
theorem pairwise_starts (text : List Char) : (ofText text).starts.Pairwise (· < ·) := by
  have hbehind (offset : Nat) : (startsBehind offset text).Pairwise (· < ·) := by
    induction text generalizing offset with
    | nil => exact List.Pairwise.nil
    | cons c rest ih =>
      rw [startsBehind_cons, List.pairwise_append]
      refine ⟨by by_cases hc : c = '\n' <;> simp [hc], ih _, fun a ha b hb => ?_⟩
      obtain ⟨i, -, rfl⟩ := mem_startsBehind_iff.mp hb
      have ha : a = offset + 1 := by
        by_cases hc : c = '\n' <;> simp_all
      omega
  rw [starts_ofText, List.pairwise_cons]
  refine ⟨fun a ha => ?_, hbehind 0⟩
  obtain ⟨i, -, rfl⟩ := mem_startsBehind_iff.mp ha
  exact Nat.succ_pos _

/-- The index of a text begins with that of any part it begins with. -/
theorem starts_append (before later : List Char) :
    (ofText (before ++ later)).starts =
      (ofText before).starts ++ startsBehind before.length later := by
  rw [starts_ofText, starts_ofText, startsBehind_append, List.cons_append, Nat.zero_add]

/-- The starts of a text are those up to an offset and those behind it. -/
theorem starts_take_append (hv : v ≤ text.length) :
    (ofText text).starts = (ofText (text.take v)).starts ++ startsBehind v (text.drop v) := by
  have hsplit := starts_append (text.take v) (text.drop v)
  rwa [List.take_append_drop, List.length_take_of_le hv] at hsplit

/-- The starts that are passed at an offset are those of the text up to there. -/
theorem takeWhile_starts (hv : v ≤ text.length) :
    (ofText text).starts.takeWhile (· ≤ v) = (ofText (text.take v)).starts := by
  have hbehind : (startsBehind v (text.drop v)).takeWhile (· ≤ v) = [] := by
    cases hlater : startsBehind v (text.drop v) with
    | nil => rfl
    | cons s others =>
      obtain ⟨i, -, rfl⟩ := mem_startsBehind_iff.mp (hlater ▸ List.mem_cons_self)
      exact List.takeWhile_cons_of_neg (by rw [decide_eq_true_eq]; omega)
  rw [starts_take_append hv, List.takeWhile_append_of_pos, hbehind, List.append_nil]
  intro s hs
  have hle := le_length_of_mem_starts hs
  rw [List.length_take_of_le hv] at hle
  exact decide_eq_true hle

/-! ## The line of an offset -/

/-- Where the last line of a text begins. -/
def lastStart (text : List Char) : Nat := (ofText text).starts.getLastD 0

/-- The last of the starts is that of the last line. -/
theorem getLast?_starts (text : List Char) :
    (ofText text).starts.getLast? = some (lastStart text) := by
  rw [lastStart, starts_ofText, List.getLastD_eq_getLast?, List.getLast?_cons, Option.getD_some]

/-- The last line begins at one of the starts. -/
theorem lastStart_mem (text : List Char) : lastStart text ∈ (ofText text).starts :=
  List.mem_of_getLast? (getLast?_starts text)

/-- No start lies behind that of the last line. -/
theorem le_lastStart (h : s ∈ (ofText text).starts) : s ≤ lastStart text := by
  obtain ⟨others, hothers⟩ := List.getLast?_eq_some_iff.mp (getLast?_starts text)
  have hpairwise := pairwise_starts text
  rw [hothers] at h hpairwise
  rcases List.mem_append.mp h with hs | hs
  · exact Nat.le_of_lt ((List.pairwise_append.mp hpairwise).2.2 s hs _ List.mem_cons_self)
  · exact Nat.le_of_eq (List.mem_singleton.mp hs)

/-- The starts of the text up to an offset are those that are no greater. -/
theorem mem_starts_take_iff (hv : v ≤ text.length) :
    s ∈ (ofText (text.take v)).starts ↔ s ≤ v ∧ s ∈ (ofText text).starts := by
  rw [starts_take_append hv, List.mem_append]
  constructor
  · intro hs
    have hle := le_length_of_mem_starts hs
    rw [List.length_take_of_le hv] at hle
    exact ⟨hle, Or.inl hs⟩
  · rintro ⟨hle, hs | hs⟩
    · exact hs
    · obtain ⟨i, -, rfl⟩ := mem_startsBehind_iff.mp hs
      omega

/-- The line of an offset begins behind the last line feed before it. -/
theorem isGreatest_lastStart (hv : v ≤ text.length) :
    IsGreatest {s | s ≤ v ∧ (s = 0 ∨ ∃ i, text[i]? = some '\n' ∧ s = i + 1)}
      (lastStart (text.take v)) := by
  have hset : {s | s ≤ v ∧ (s = 0 ∨ ∃ i, text[i]? = some '\n' ∧ s = i + 1)} =
      {s | s ∈ (ofText (text.take v)).starts} := by
    ext s
    rw [Set.mem_ofPred_eq, Set.mem_ofPred_eq, mem_starts_take_iff hv, mem_starts_iff]
  rw [hset]
  exact ⟨lastStart_mem _, fun s => le_lastStart⟩

/-- The position of an offset in terms of the text up to there. -/
theorem lineCol_eq (hv : v ≤ text.length) :
    (ofText text).lineCol v =
      ⟨1 + (text.take v).count '\n', v - lastStart (text.take v) + 1⟩ := by
  have hclamp : (ofText text).clamp v = v := Nat.min_eq_left hv
  simp only [lineCol, hclamp, takeWhile_starts hv, length_starts, lastStart]

/-- The number of a line leads back to where it begins. -/
theorem getElem?_starts (hv : v ≤ text.length) :
    (ofText text).starts[(text.take v).count '\n']? = some (lastStart (text.take v)) := by
  have hlength := length_starts (text.take v)
  rw [starts_take_append hv, List.getElem?_append_left (by omega), ← getLast?_starts,
    List.getLast?_eq_getElem?, hlength, Nat.add_sub_cancel_left]

/-- A greater offset has a greater position. -/
theorem rank_lt_rank (hmn : m < n) (hn : n ≤ text.length) :
    ((ofText text).lineCol m).rank < ((ofText text).lineCol n).rank := by
  have hm : m ≤ text.length := Nat.le_trans (Nat.le_of_lt hmn) hn
  have hlines : (text.take m).count '\n' ≤ (text.take n).count '\n' :=
    ((List.take_prefix_take_left (Nat.le_of_lt hmn)).sublist).count_le _
  rw [lineCol_eq hm, lineCol_eq hn, LineCol.rank, LineCol.rank, Prod.Lex.toLex_lt_toLex]
  rcases Nat.lt_or_eq_of_le hlines with hlt | heq
  · exact Or.inl (Nat.add_lt_add_left hlt 1)
  · -- on one line the columns are counted from the same start
    have hstart : lastStart (text.take m) = lastStart (text.take n) := by
      have h := getElem?_starts hm
      rw [heq, getElem?_starts hn] at h
      exact (Option.some.inj h).symm
    have hle := (isGreatest_lastStart hm).1.1
    refine Or.inr ⟨by rw [heq], ?_⟩
    show m - _ + 1 < n - _ + 1
    omega

/-- An offset outside the text is looked up as its nearest end. -/
theorem lineCol_clamp (text : List Char) (offset : Int) :
    (ofText text).lineCol offset = (ofText text).lineCol (min offset.toNat text.length : Nat) := by
  have hclamp : (ofText text).clamp offset =
      (ofText text).clamp (min offset.toNat text.length : Nat) := by
    show min offset.toNat text.length = min (min offset.toNat text.length) text.length
    omega
  rw [lineCol, lineCol, hclamp]

/-- The position of an offset, clamped to the text, is one line more than there are line feeds
before it, and one column more than it is away from where that line begins, which is behind the last
of these or at the start of the text. It lies on one of the lines of the text, and line and column
lead back to the offset. Within the text, ends included, no two offsets have the same position, and
positions are in order of line and column as offsets are. -/
theorem lineCol_exact_and_invertible (text : List Char) :
    (∀ offset : Int, ∃ v start : Nat, (v : Int) = max 0 (min offset text.length) ∧
      IsGreatest {s | s ≤ v ∧ (s = 0 ∨ ∃ i, text[i]? = some '\n' ∧ s = i + 1)} start ∧
      ((ofText text).lineCol offset).line = 1 + (text.take v).count '\n' ∧
      ((ofText text).lineCol offset).column = v - start + 1 ∧
      1 ≤ ((ofText text).lineCol offset).line ∧
      ((ofText text).lineCol offset).line ≤ (ofText text).lineCount ∧
      (ofText text).starts[((ofText text).lineCol offset).line - 1]? = some start ∧
      v = start + ((ofText text).lineCol offset).column - 1) ∧
    StrictMonoOn (fun offset : Int => ((ofText text).lineCol offset).rank)
      (Set.Icc 0 (text.length : Int)) ∧
    Set.InjOn (fun offset : Int => (ofText text).lineCol offset)
      (Set.Icc 0 (text.length : Int)) := by
  have hmono : StrictMonoOn (fun offset : Int => ((ofText text).lineCol offset).rank)
      (Set.Icc 0 (text.length : Int)) := by
    rintro m ⟨hm, -⟩ n ⟨hn, hlength⟩ hmn
    obtain ⟨m, rfl⟩ := Int.eq_ofNat_of_zero_le hm
    obtain ⟨n, rfl⟩ := Int.eq_ofNat_of_zero_le hn
    exact rank_lt_rank (Int.ofNat_lt.mp hmn) (Int.ofNat_le.mp hlength)
  refine ⟨fun offset => ?_, hmono, fun m hm n hn h => ?_⟩
  · have hv : min offset.toNat text.length ≤ text.length := Nat.min_le_right _ _
    generalize hoffset : min offset.toNat text.length = v at hv
    have hgreatest := isGreatest_lastStart hv
    have hlines : (text.take v).count '\n' ≤ text.count '\n' :=
      (List.take_sublist v text).count_le _
    rw [lineCol_clamp, hoffset, lineCol_eq hv]
    refine ⟨v, lastStart (text.take v), by omega, hgreatest, rfl, rfl, Nat.le_add_right _ _, ?_, ?_, ?_⟩
    · rw [lineCount, length_starts]
      exact Nat.add_le_add_left hlines 1
    · simpa only [Nat.add_sub_cancel_left] using getElem?_starts hv
    · have hle := hgreatest.1.1
      show v = _ + (v - _ + 1) - 1
      omega
  · exact hmono.injOn hm hn (congrArg LineCol.rank h)

end LineIndex

end WorldDoc
