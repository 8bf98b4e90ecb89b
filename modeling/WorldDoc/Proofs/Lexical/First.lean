import WorldDoc.Lexical.Lexeme

/-!
# One step of cutting a text

`first` decides by the first character, and sometimes the one behind it, which lexeme a text begins
with. The classes it tries one after the other have no character in common, so the order in which it
tries them does not matter: `FirstOf` lists the branches, each with nothing but its own condition,
and `first_eq_iff` says that a text begins with a lexeme exactly if one of the branches yields it.
-/

namespace WorldDoc.Lexeme

open Lexical

/-- Closed or not, a string literal is a string. -/
theorem string_kind (rest : List Char) : (string rest).kind = .string := by
  unfold string
  split
  · split <;> rfl
  · simp only
    split <;> rfl

/-- `FirstOf c rest l`: the text that begins with `c` and goes on with `rest` begins with the
lexeme `l`. -/
inductive FirstOf (c : Char) (rest : List Char) : Lexeme → Prop
  | feedReturn (hc : c = '\r') (hrest : rest.head? = some '\n') :
    FirstOf c rest ⟨.newline, ['\r', '\n'], none⟩
  | lineBreak (hc : isBreak c = true) (hrest : ¬(c = '\r' ∧ rest.head? = some '\n')) :
    FirstOf c rest ⟨.newline, [c], none⟩
  | blanks (hc : isBlank c = true) :
    FirstOf c rest ⟨.whitespace, c :: rest.takeWhile isBlank, none⟩
  | comment (hc : c = '#' ∨ (c = '/' ∧ rest.head? = some '/')) :
    FirstOf c rest ⟨.comment, c :: rest.takeWhile (!isBreak ·), none⟩
  | quoted (hc : c = '"') : FirstOf c rest (string rest)
  | number (hc : isDigit c = true ∨ (c = '-' ∧ rest.head?.any isDigit = true)) :
    FirstOf c rest ⟨.number, c :: numberTail rest, none⟩
  | directive (hc : c = '@') (hrest : rest.head?.any isNameStart = true) :
    FirstOf c rest ⟨.directive, c :: rest.takeWhile isNameContinue, none⟩
  | name (hc : isNameStart c = true) :
    FirstOf c rest ⟨nameKind (c :: rest.takeWhile isNameContinue),
      c :: rest.takeWhile isNameContinue, none⟩
  | punctuation {kind : TokenKind} (hc : punctuation? c = some kind) :
    FirstOf c rest ⟨kind, [c], none⟩
  | skipped (hbreak : isBreak c = false) (hblank : isBlank c = false)
    (hcomment : ¬(c = '#' ∨ (c = '/' ∧ rest.head? = some '/'))) (hquote : c ≠ '"')
    (hnumber : ¬(isDigit c = true ∨ (c = '-' ∧ rest.head?.any isDigit = true)))
    (hdirective : ¬(c = '@' ∧ rest.head?.any isNameStart = true))
    (hname : isNameStart c = false) (hmark : punctuation? c = none) :
    FirstOf c rest ⟨.skipped, [c], some .unexpectedCharacter⟩

/-- The first lexeme comes from one of the branches. -/
theorem firstOf_first (c : Char) (rest : List Char) : FirstOf c rest (first c rest) := by
  unfold first
  split
  · rename_i hbreak
    split
    · rename_i hpair
      exact .feedReturn hpair.1 hpair.2
    · rename_i hpair
      exact .lineBreak hbreak hpair
  · rename_i hbreak
    split
    · rename_i hblank
      exact .blanks hblank
    · rename_i hblank
      split
      · rename_i hcomment
        exact .comment hcomment
      · rename_i hcomment
        split
        · rename_i hquote
          exact .quoted hquote
        · rename_i hquote
          split
          · rename_i hnumber
            exact .number hnumber
          · rename_i hnumber
            split
            · rename_i hdirective
              exact .directive hdirective.1 hdirective.2
            · rename_i hdirective
              split
              · rename_i hname
                exact .name hname
              · rename_i hname
                split
                · rename_i hmark
                  exact .punctuation hmark
                -- no branch has taken the character, so it begins nothing
                · rename_i hmark
                  exact .skipped (by simpa using hbreak) (by simpa using hblank) hcomment hquote
                    hnumber hdirective (by simpa using hname) hmark

/-! ## The classes have no character in common -/

section Classes

variable {c : Char}

/-- A character that starts a name is none that does not. -/
theorem ne_of_isNameStart {d : Char} (hc : isNameStart c = true) (hd : isNameStart d = false) :
    c ≠ d := by
  rintro rfl
  rw [hc] at hd
  contradiction

/-- A digit is no character that is none. -/
theorem ne_of_isDigit {d : Char} (hc : isDigit c = true) (hd : isDigit d = false) : c ≠ d := by
  rintro rfl
  rw [hc] at hd
  contradiction

/-- A character is no line break if it is neither of the two. -/
theorem isBreak_eq_false (hfeed : c ≠ '\n') (hreturn : c ≠ '\r') : isBreak c = false := by
  simp [isBreak, hfeed, hreturn]

/-- A character is no blank if it is none of the four. -/
theorem isBlank_eq_false (hspace : c ≠ ' ') (htab : c ≠ '\t') (hmark : c ≠ '\ufeff')
    (hwide : c ≠ '\u3000') : isBlank c = false := by
  simp [isBlank, hspace, htab, hmark, hwide]

/-- No letter lies below the digits or among them. -/
theorem isDigit_eq_false_of_isNameStart (hc : isNameStart c = true) : isDigit c = false := by
  cases hdigit : isDigit c with
  | false => rfl
  | true =>
    have hle : c.toNat ≤ 57 := by
      simp only [isDigit, Bool.and_eq_true, decide_eq_true_eq] at hdigit
      exact hdigit.2
    have hletter : CharClass.alphabetic.contains c = false := by
      refine Bool.eq_false_iff.mpr fun hmem => ?_
      obtain ⟨r, hr, hfirst, -⟩ := CharClass.exists_range_of_covers hmem
      have hlt : 57 < r.1 := by
        have hall : ∀ r ∈ CharClass.alphabetic.ranges, 57 < r.1 := by decide +kernel
        exact hall r hr
      omega
    have hlow : c ≠ '_' := ne_of_isDigit hdigit (by decide)
    rw [isNameStart, hletter, decide_eq_false hlow] at hc
    contradiction

/-- A character that starts a name may also go on with one. -/
theorem isNameContinue_of_isNameStart (hc : isNameStart c = true) : isNameContinue c = true := by
  rw [isNameStart, Bool.or_eq_true] at hc
  simp only [isNameContinue, Bool.or_eq_true]
  rcases hc with hletter | hlow
  · exact Or.inl (Or.inl (Or.inl hletter))
  · exact Or.inl (Or.inr hlow)

/-- A character that starts a name starts nothing else. -/
theorem classes_of_isNameStart (hc : isNameStart c = true) :
    isBreak c = false ∧ isBlank c = false ∧ c ≠ '#' ∧ c ≠ '/' ∧ c ≠ '"' ∧ isDigit c = false ∧
      c ≠ '-' ∧ c ≠ '@' := by
  have hne (d : Char) (hd : isNameStart d = false) : c ≠ d := ne_of_isNameStart hc hd
  refine ⟨isBreak_eq_false (hne _ ?_) (hne _ ?_),
    isBlank_eq_false (hne _ ?_) (hne _ ?_) (hne _ ?_) (hne _ ?_), hne _ ?_, hne _ ?_, hne _ ?_,
    isDigit_eq_false_of_isNameStart hc, hne _ ?_, hne _ ?_⟩
  all_goals decide +kernel

/-- A digit starts nothing but a number. -/
theorem classes_of_isDigit (hc : isDigit c = true) :
    isBreak c = false ∧ isBlank c = false ∧ c ≠ '#' ∧ c ≠ '/' ∧ c ≠ '"' := by
  have hne (d : Char) (hd : isDigit d = false) : c ≠ d := ne_of_isDigit hc hd
  refine ⟨isBreak_eq_false (hne _ ?_) (hne _ ?_),
    isBlank_eq_false (hne _ ?_) (hne _ ?_) (hne _ ?_) (hne _ ?_), hne _ ?_, hne _ ?_, hne _ ?_⟩
  all_goals decide +kernel

end Classes

/-! ## Each branch by itself -/

section Branches

variable {c : Char} {rest : List Char}

/-- A blank begins white space, which goes on as long as there are blanks. -/
theorem first_of_isBlank (hc : isBlank c = true) :
    first c rest = ⟨.whitespace, c :: rest.takeWhile isBlank, none⟩ := by
  have hbreak : isBreak c = false := by
    refine isBreak_eq_false ?_ ?_
    all_goals
      rintro rfl
      exact absurd hc (by decide)
  rw [first, if_neg (by simp [hbreak]), if_pos hc]

/-- A number sign or two slashes begin a comment, which goes on to the end of the line. -/
theorem first_of_comment (hc : c = '#' ∨ (c = '/' ∧ rest.head? = some '/')) :
    first c rest = ⟨.comment, c :: rest.takeWhile (!isBreak ·), none⟩ := by
  have hclasses : isBreak c = false ∧ isBlank c = false := by
    rcases hc with rfl | ⟨rfl, -⟩
    all_goals decide
  rw [first, if_neg (by simp [hclasses.1]), if_neg (by simp [hclasses.2]), if_pos hc]

/-- A quote begins a string. -/
theorem first_quote (rest : List Char) : first '"' rest = string rest := by
  rw [first, if_neg (by decide), if_neg (by decide), if_neg (by simp), if_pos rfl]

/-- A digit, or a hyphen before one, begins a number. -/
theorem first_of_number (hc : isDigit c = true ∨ (c = '-' ∧ rest.head?.any isDigit = true)) :
    first c rest = ⟨.number, c :: numberTail rest, none⟩ := by
  have hclasses : isBreak c = false ∧ isBlank c = false ∧ c ≠ '#' ∧ c ≠ '/' ∧ c ≠ '"' := by
    rcases hc with hdigit | ⟨rfl, -⟩
    · exact classes_of_isDigit hdigit
    · decide
  obtain ⟨hbreak, hblank, hhash, hslash, hquote⟩ := hclasses
  rw [first, if_neg (by simp [hbreak]), if_neg (by simp [hblank]), if_neg (by simp [hhash, hslash]),
    if_neg hquote, if_pos hc]

/-- An at sign before a name begins a directive. -/
theorem first_at (hrest : rest.head?.any isNameStart = true) :
    first '@' rest = ⟨.directive, '@' :: rest.takeWhile isNameContinue, none⟩ := by
  have hdigit : isDigit '@' = false := by decide
  rw [first, if_neg (by decide), if_neg (by decide), if_neg (by simp), if_neg (by decide),
    if_neg (by simp [hdigit]), if_pos ⟨rfl, hrest⟩]

/-- A character that starts a name begins one. -/
theorem first_of_isNameStart (hc : isNameStart c = true) :
    first c rest = ⟨nameKind (c :: rest.takeWhile isNameContinue),
      c :: rest.takeWhile isNameContinue, none⟩ := by
  obtain ⟨hbreak, hblank, hhash, hslash, hquote, hdigit, hminus, hat⟩ := classes_of_isNameStart hc
  rw [first, if_neg (by simp [hbreak]), if_neg (by simp [hblank]), if_neg (by simp [hhash, hslash]),
    if_neg hquote, if_neg (by simp [hdigit, hminus]), if_neg (by simp [hat]), if_pos hc]

/-- A punctuation mark is one of six characters, none of which starts anything else. -/
theorem classes_of_punctuation? {kind : TokenKind} (hc : punctuation? c = some kind) :
    isBreak c = false ∧ isBlank c = false ∧ c ≠ '#' ∧ c ≠ '/' ∧ c ≠ '"' ∧ isDigit c = false ∧
      c ≠ '-' ∧ c ≠ '@' ∧ isNameStart c = false := by
  unfold punctuation? at hc
  split at hc
  all_goals first
    | decide +kernel
    | exact absurd hc (by simp)

/-- A punctuation mark is a lexeme by itself. -/
theorem first_of_punctuation? {kind : TokenKind} (hc : punctuation? c = some kind) :
    first c rest = ⟨kind, [c], none⟩ := by
  obtain ⟨hbreak, hblank, hhash, hslash, hquote, hdigit, hminus, hat, hname⟩ :=
    classes_of_punctuation? hc
  rw [first, if_neg (by simp [hbreak]), if_neg (by simp [hblank]), if_neg (by simp [hhash, hslash]),
    if_neg hquote, if_neg (by simp [hdigit, hminus]), if_neg (by simp [hat]),
    if_neg (by simp [hname]), hc]

end Branches

/-- A text begins with a lexeme exactly if one of the branches yields it. -/
theorem first_eq_iff {c : Char} {rest : List Char} {l : Lexeme} :
    first c rest = l ↔ FirstOf c rest l := by
  constructor
  · rintro rfl
    exact firstOf_first c rest
  · intro h
    cases h with
    | feedReturn hc hrest => rw [first, if_pos (by rw [hc]; decide), if_pos ⟨hc, hrest⟩]
    | lineBreak hc hrest => rw [first, if_pos hc, if_neg hrest]
    | blanks hc => exact first_of_isBlank hc
    | comment hc => exact first_of_comment hc
    | quoted hc => exact hc ▸ first_quote rest
    | number hc => exact first_of_number hc
    | directive hc hrest => exact hc ▸ first_at hrest
    | name hc => exact first_of_isNameStart hc
    | punctuation hc => exact first_of_punctuation? hc
    | skipped hbreak hblank hcomment hquote hnumber hdirective hname hmark =>
      rw [first, if_neg (by simp [hbreak]), if_neg (by simp [hblank]), if_neg hcomment,
        if_neg hquote, if_neg hnumber, if_neg hdirective, if_neg (by simp [hname]), hmark]

end WorldDoc.Lexeme
