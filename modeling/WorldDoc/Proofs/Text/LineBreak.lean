import Mathlib.Data.List.Chain
import Mathlib.Data.List.Induction
import WorldDoc.Proofs.Text.Position
import WorldDoc.Text.LineBreak

/-!
# Texts whose carriage returns are followed by line feeds

Where every carriage return has a line feed behind it (`Paired`), writing each line break as a line
feed is leaving out the carriage returns (`normalize_eq`). What stands at an offset of the text
stands at another one afterwards (`offsetWithout`), and offsets that cut no line break in two keep
their order (`offsetWithout_lt`) and their line and column (`lineCol_offsetWithout`). Where every
line feed has a carriage return before it as well (`FeedsPaired`), the text can be had back
(`withReturns_normalize`).

That an offset cuts no line break is said of the text up to there: it is `Paired` as well.
-/

namespace WorldDoc.LineBreak

/-- Every carriage return is followed by a line feed. -/
def Paired : List Char → Prop
  | [] => True
  | c :: rest => (c = '\r' → rest.head? = some '\n') ∧ Paired rest

instance decidablePaired : (text : List Char) → Decidable (Paired text)
  | [] => isTrue trivial
  | c :: rest =>
    have := decidablePaired rest
    inferInstanceAs (Decidable ((c = '\r' → rest.head? = some '\n') ∧ Paired rest))

/-- A text without its carriage returns. -/
def withoutReturns (text : List Char) : List Char := text.filter (· ≠ '\r')

/-- Where an offset of a text lies once the carriage returns are left out. -/
def offsetWithout (text : List Char) (n : Nat) : Nat := (withoutReturns (text.take n)).length

/-- A string with its line breaks as line feeds. -/
def normalized (x : String) : String := String.ofList (normalize x.toList)

variable {text a b : List Char} {c : Char} {m n : Nat}

/-! ## Parts of a text -/

namespace Paired

/-- Two paired texts joined are paired. -/
theorem append (ha : Paired a) (hb : Paired b) : Paired (a ++ b) := by
  induction a with
  | nil => exact hb
  | cons c a ih =>
    refine ⟨fun hc => ?_, ih ha.2⟩
    show (a ++ b).head? = some '\n'
    rw [List.head?_append, ha.1 hc]
    rfl

/-- The end of a paired text is paired. -/
theorem right (h : Paired (a ++ b)) : Paired b := by
  induction a with
  | nil => exact h
  | cons c a ih => exact ih h.2

/-- What a text begins with is paired unless a line break is cut in two. -/
theorem left (h : Paired (a ++ b)) (hlast : a.getLast? ≠ some '\r') : Paired a := by
  induction a with
  | nil => trivial
  | cons c a ih =>
    cases a with
    | nil => exact ⟨fun hc => absurd (congrArg some hc) hlast, trivial⟩
    | cons d a =>
      rw [List.getLast?_cons_cons] at hlast
      exact ⟨h.1, ih h.2 hlast⟩

/-- A paired text does not end with a carriage return. -/
theorem getLast?_ne (h : Paired a) : a.getLast? ≠ some '\r' := by
  intro hlast
  obtain ⟨front, rfl⟩ := List.getLast?_eq_some_iff.mp hlast
  exact absurd (h.right.1 rfl) (by simp)

/-- A paired text without its last character is paired, if that is no line feed. -/
theorem of_concat (h : Paired (a ++ [c])) (hc : c ≠ '\n') : Paired a := by
  refine h.left fun hlast => hc ?_
  obtain ⟨front, rfl⟩ := List.getLast?_eq_some_iff.mp hlast
  rw [List.append_assoc] at h
  exact Option.some.inj (h.right.1 rfl)

/-- A text without carriage returns is paired. -/
theorem of_not_mem (h : '\r' ∉ a) : Paired a := by
  induction a with
  | nil => trivial
  | cons c a ih =>
    rw [List.mem_cons, not_or] at h
    exact ⟨fun hc => absurd hc.symm h.1, ih h.2⟩

end Paired

/-! ## Leaving out carriage returns -/

/-- Carriage returns are left out piece by piece. -/
theorem withoutReturns_append (a b : List Char) :
    withoutReturns (a ++ b) = withoutReturns a ++ withoutReturns b := List.filter_append ..

/-- A character other than a carriage return stays. -/
theorem withoutReturns_cons (hc : c ≠ '\r') (text : List Char) :
    withoutReturns (c :: text) = c :: withoutReturns text :=
  List.filter_cons_of_pos (decide_eq_true hc)

/-- A carriage return goes. -/
theorem withoutReturns_return (text : List Char) :
    withoutReturns ('\r' :: text) = withoutReturns text := rfl

/-- A text without carriage returns stays as it is. -/
theorem withoutReturns_of_not_mem (h : '\r' ∉ text) : withoutReturns text = text := by
  refine List.filter_eq_self.mpr fun c hc => decide_eq_true ?_
  rintro rfl
  exact h hc

/-- Writing every line break as a line feed leaves out the carriage returns, if all are paired. -/
theorem normalize_eq (h : Paired text) : normalize text = withoutReturns text := by
  induction text with
  | nil => rfl
  | cons c rest ih =>
    by_cases hc : c = '\r'
    · obtain ⟨later, rfl⟩ := List.head?_eq_some_iff.mp (h.1 hc)
      rw [hc, normalize_crlf, withoutReturns_return, ← ih h.2, normalize_cons (by decide)]
    · rw [normalize_cons hc, withoutReturns_cons hc, ih h.2]

/-! ## Line feeds with their carriage returns -/

/-- Every line feed of the text stands behind a carriage return. -/
def FeedsPaired (text : List Char) : Prop :=
  text.head? ≠ some '\n' ∧ text.IsChain fun c d => d = '\n' → c = '\r'

instance (text : List Char) : Decidable (FeedsPaired text) := inferInstanceAs (Decidable (_ ∧ _))

namespace FeedsPaired

/-- A part of a text that does not begin with a line feed has the carriage return of each of its
line feeds. -/
theorem of_part (h : FeedsPaired text) (hpart : a <:+: text) (hhead : a.head? ≠ some '\n') :
    FeedsPaired a := by
  obtain ⟨front, back, rfl⟩ := hpart
  exact ⟨hhead, h.2.left_of_append.right_of_append⟩

/-- Behind any character but a carriage return the feeds are still paired. -/
theorem tail (h : FeedsPaired (c :: text)) (hc : c ≠ '\r') : FeedsPaired text := by
  refine h.of_part (List.suffix_cons c text).isInfix fun hhead => ?_
  obtain ⟨back, rfl⟩ := List.head?_eq_some_iff.mp hhead
  exact hc ((List.isChain_cons_cons.mp h.2).1 rfl)

/-- Behind a whole line break the feeds are still paired. -/
theorem behind_break (h : FeedsPaired ('\r' :: '\n' :: text)) : FeedsPaired text := by
  refine h.of_part (List.suffix_append ['\r', '\n'] text).isInfix fun hhead => ?_
  obtain ⟨back, rfl⟩ := List.head?_eq_some_iff.mp hhead
  have hchain := (List.isChain_cons_cons.mp h.2).2
  exact absurd ((List.isChain_cons_cons.mp hchain).1 rfl) (by decide)

end FeedsPaired

/-- Writes every line feed as CR LF. -/
def withReturns (text : List Char) : List Char :=
  text.flatMap fun c => if c = '\n' then ['\r', '\n'] else [c]

/-- A text with all its line breaks as CR LF can be had back. -/
theorem withReturns_normalize (hpaired : Paired text) (h : FeedsPaired text) :
    withReturns (normalize text) = text := by
  induction hn : text.length using Nat.strongRecOn generalizing text with
  | ind n ih =>
    cases text with
    | nil => rfl
    | cons c rest =>
      have hfeed : c ≠ '\n' := fun hfeed => h.1 (congrArg some hfeed)
      by_cases hreturn : c = '\r'
      · subst hreturn
        obtain ⟨later, rfl⟩ := List.head?_eq_some_iff.mp (hpaired.1 rfl)
        rw [List.length_cons, List.length_cons] at hn
        rw [normalize_crlf, withReturns, List.flatMap_cons, ← withReturns,
          ih later.length (by omega) hpaired.2.2 h.behind_break rfl]
        rfl
      · rw [List.length_cons] at hn
        rw [normalize_cons hreturn, withReturns, List.flatMap_cons, ← withReturns, if_neg hfeed,
          ih rest.length (by omega) hpaired.2 (h.tail hreturn) rfl]
        rfl

/-! ## Offsets -/

/-- The text up to an offset is, without its carriage returns, what comes before the new offset. -/
theorem take_offsetWithout (text : List Char) (n : Nat) :
    (withoutReturns text).take (offsetWithout text n) = withoutReturns (text.take n) := by
  conv_lhs => rw [← List.take_append_drop n text, withoutReturns_append]
  rw [List.take_append_drop, offsetWithout, List.take_left]

/-- A place between two pieces lies behind what is left of the first. -/
theorem offsetWithout_append (a b : List Char) :
    offsetWithout (a ++ b) a.length = (withoutReturns a).length := by
  rw [offsetWithout, List.take_left]

/-- The end of a text goes to the end of what is left of it. -/
theorem offsetWithout_length (text : List Char) :
    offsetWithout text text.length = (withoutReturns text).length := by
  rw [offsetWithout, List.take_length]

/-- Places keep their order, or fall together. -/
theorem offsetWithout_mono (hmn : m ≤ n) : offsetWithout text m ≤ offsetWithout text n :=
  ((List.take_prefix_take_left hmn).sublist.filter _).length_le

/-- Offsets keep their order if the greater one cuts no line break. -/
theorem offsetWithout_lt (hmn : m < n) (hn : n ≤ text.length) (h : Paired (text.take n)) :
    offsetWithout text m < offsetWithout text n := by
  have hsplit : text.take n = text.take m ++ (text.take n).drop m := by
    conv_lhs => rw [← List.take_append_drop m (text.take n), List.take_take,
      Nat.min_eq_left (Nat.le_of_lt hmn)]
  have hne : (text.take n).drop m ≠ [] := by
    rw [Ne, List.drop_eq_nil_iff, List.length_take_of_le hn]
    omega
  -- what stands between the offsets does not end in a carriage return
  obtain ⟨front, hlast⟩ := List.getLast?_eq_some_iff.mp (List.getLast?_eq_some_getLast hne)
  generalize List.getLast _ hne = last at hlast
  have hreturn : last ≠ '\r' := by
    rintro rfl
    rw [hsplit, hlast, ← List.append_assoc] at h
    exact h.getLast?_ne List.getLast?_concat
  rw [offsetWithout, offsetWithout, hsplit, withoutReturns_append, hlast, withoutReturns_append,
    withoutReturns_cons hreturn, List.length_append, List.length_append]
  exact Nat.lt_add_of_pos_right (Nat.add_pos_right _ Nat.one_pos)

/-- Two places fall together only if one lies within a line break. -/
theorem offsetWithout_eq_iff (hm : m ≤ text.length) (hn : n ≤ text.length)
    (hpm : Paired (text.take m)) (hpn : Paired (text.take n)) :
    offsetWithout text m = offsetWithout text n ↔ m = n := by
  refine ⟨fun h => ?_, fun h => h ▸ rfl⟩
  rcases Nat.lt_trichotomy m n with hlt | heq | hlt
  · exact absurd h (Nat.ne_of_lt (offsetWithout_lt hlt hn hpn))
  · exact heq
  · exact absurd h.symm (Nat.ne_of_lt (offsetWithout_lt hlt hm hpm))

/-- Places keep their strict order, if the later one does not lie within a line break. -/
theorem offsetWithout_lt_iff (hn : n ≤ text.length) (hpn : Paired (text.take n)) :
    offsetWithout text m < offsetWithout text n ↔ m < n :=
  ⟨fun h => Nat.lt_of_not_le fun hle => Nat.not_le_of_lt h (offsetWithout_mono hle),
    fun h => offsetWithout_lt h hn hpn⟩

/-! ## Lines and columns -/

open LineIndex

/-- A line feed begins a new last line, and any other character goes on with the one there is. -/
theorem lastStart_concat (text : List Char) (c : Char) :
    lastStart (text ++ [c]) = if c = '\n' then text.length + 1 else lastStart text := by
  rw [lastStart, starts_append, startsBehind_cons]
  split
  · simp [startsBehind]
  · rw [lastStart]
    simp [startsBehind]

/-- The last line of a text is as long without carriage returns, as none of them is in that line. -/
theorem length_sub_lastStart (h : Paired text) :
    (withoutReturns text).length - lastStart (withoutReturns text) =
      text.length - lastStart text := by
  induction text using List.reverseRecOn with
  | nil => rfl
  | append_singleton text c ih =>
    have hreturn : c ≠ '\r' := by
      rintro rfl
      exact h.getLast?_ne List.getLast?_concat
    rw [withoutReturns_append, withoutReturns_cons hreturn]
    show (withoutReturns text ++ [c]).length - lastStart (withoutReturns text ++ [c]) = _
    rw [lastStart_concat, lastStart_concat, List.length_append, List.length_append]
    split
    · exact (Nat.sub_self _).trans (Nat.sub_self _).symm
    · rename_i hfeed
      have hle (t : List Char) : lastStart t ≤ t.length := le_length_of_mem_starts (lastStart_mem t)
      have hline := ih (h.of_concat hfeed)
      have := hle text
      have := hle (withoutReturns text)
      simp only [List.length_singleton]
      omega

/-- An offset that cuts no line break keeps its line and column. -/
theorem lineCol_offsetWithout (hn : n ≤ text.length) (h : Paired (text.take n)) :
    (ofText (withoutReturns text)).lineCol (offsetWithout text n) = (ofText text).lineCol n := by
  have hoffset : offsetWithout text n ≤ (withoutReturns text).length := by
    rw [← offsetWithout_length]
    exact offsetWithout_mono hn
  have hcolumn := length_sub_lastStart h
  have hfeeds : (withoutReturns (text.take n)).count '\n' = (text.take n).count '\n' :=
    List.count_filter (by decide)
  rw [lineCol_eq hoffset, lineCol_eq hn, take_offsetWithout, hfeeds, offsetWithout, hcolumn,
    List.length_take_of_le hn]

end WorldDoc.LineBreak
