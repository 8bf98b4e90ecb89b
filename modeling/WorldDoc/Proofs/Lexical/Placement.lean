import WorldDoc.Lexical.Reader

/-!
# Where tokens stand

The lexemes of a text, joined, are the text again (`flatMap_text_lexemes`), and none of them is
empty. So the tokens stand one behind the other without a gap: each is the slice of the text at its
own range (`slice_range_of_mem_tokens`), each ends before the next one starts
(`pairwise_tokens`), and all of them end within the text.

## Shape of the proof

`first` takes a beginning of the text (`isPrefix_first_text`), branch by branch, so a text is its
first lexeme and what is left. `lexemes_induction` is the induction along that cut; every fact about
all lexemes of a text goes by it. What is known of lexemes side by side is then read off `place`.
-/

namespace WorldDoc

namespace Lexeme

open Lexical

/-! ## A lexeme is a beginning of the text -/

/-- The fraction that is found begins the text. -/
theorem isPrefix_fraction (text : List Char) : fraction text <+: text := by
  unfold fraction
  split
  · rename_i rest
    simp only
    split
    · exact List.nil_prefix
    · exact (List.cons_prefix_cons).2 ⟨rfl, List.takeWhile_prefix _⟩
  · exact List.nil_prefix

/-- The sign that is found begins the text. -/
theorem isPrefix_sign (text : List Char) : sign text <+: text := by
  unfold sign
  split
  · split
    · exact (List.cons_prefix_cons).2 ⟨rfl, List.nil_prefix⟩
    · exact List.nil_prefix
  · exact List.nil_prefix

/-- A beginning of a text and a beginning of what comes behind it are a beginning together. -/
theorem append_prefix_of_prefix_drop {first later text : List Char} (hfirst : first <+: text)
    (hlater : later <+: text.drop first.length) : first ++ later <+: text := by
  obtain ⟨rest, rfl⟩ := hfirst
  rw [List.drop_left] at hlater
  exact (List.prefix_append_right_inj first).2 hlater

/-- The power of ten that is found begins the text. -/
theorem isPrefix_exponent (text : List Char) : exponent text <+: text := by
  unfold exponent
  split
  · rename_i e rest
    split
    · simp only
      split
      · exact List.nil_prefix
      · refine (List.cons_prefix_cons).2 ⟨rfl, ?_⟩
        exact append_prefix_of_prefix_drop (isPrefix_sign rest) (List.takeWhile_prefix _)
    · exact List.nil_prefix
  · exact List.nil_prefix

/-- The rest of a number begins what stands behind its first character. -/
theorem isPrefix_numberTail (text : List Char) : numberTail text <+: text := by
  unfold numberTail
  refine append_prefix_of_prefix_drop (List.takeWhile_prefix _) ?_
  exact append_prefix_of_prefix_drop (isPrefix_fraction _) (isPrefix_exponent _)

/-- A string begins the text that its quote begins. -/
theorem isPrefix_string_text (rest : List Char) : (string rest).text <+: '"' :: rest := by
  unfold string
  split
  · split
    · exact (List.cons_prefix_cons).2 ⟨rfl, List.take_prefix _ _⟩
    · exact List.prefix_rfl
  · simp only
    have hbody := List.takeWhile_prefix (l := rest) fun c => c ≠ '"' && !isBreak c
    split
    · rename_i hquote
      refine (List.cons_prefix_cons).2 ⟨rfl, append_prefix_of_prefix_drop hbody ?_⟩
      obtain ⟨later, hlater⟩ := List.head?_eq_some_iff.1 hquote
      exact ⟨later, by rw [hlater]; rfl⟩
    · exact (List.cons_prefix_cons).2 ⟨rfl, hbody⟩

/-- The first lexeme of a text is a beginning of it. -/
theorem isPrefix_first_text (c : Char) (rest : List Char) : (first c rest).text <+: c :: rest := by
  have hsingle : [c] <+: c :: rest := (List.cons_prefix_cons).2 ⟨rfl, List.nil_prefix⟩
  have hrun (p : Char → Bool) : c :: rest.takeWhile p <+: c :: rest :=
    (List.cons_prefix_cons).2 ⟨rfl, List.takeWhile_prefix p⟩
  unfold first
  split
  · split
    · rename_i hpair
      obtain ⟨rfl, hnewline⟩ := hpair
      obtain ⟨later, rfl⟩ := List.head?_eq_some_iff.1 hnewline
      exact ⟨later, rfl⟩
    · exact hsingle
  · split
    · exact hrun _
    · split
      · exact hrun _
      · split
        · rename_i hquote
          subst hquote
          exact isPrefix_string_text rest
        · split
          · exact (List.cons_prefix_cons).2 ⟨rfl, isPrefix_numberTail rest⟩
          · split
            · exact hrun _
            · split
              · exact hrun _
              · split <;> exact hsingle

/-- A text is its first lexeme and what is left behind it. -/
theorem first_text_append_drop (c : Char) (rest : List Char) :
    (first c rest).text ++ (c :: rest).drop (first c rest).text.length = c :: rest := by
  exact (List.prefix_iff_eq_append).1 (isPrefix_first_text c rest)

/-- No lexeme marks the end of the file. -/
theorem first_kind_ne_eof (c : Char) (rest : List Char) : (first c rest).kind ≠ .eof := by
  unfold first string nameKind punctuation?
  grind

end Lexeme

/-! ## Lexemes of a whole text -/

/-- Induction along the cut of a text into its first lexeme and what is left. -/
theorem lexemes_induction {motive : List Char → Prop} (nil : motive [])
    (cons : ∀ c rest, motive ((c :: rest).drop (Lexeme.first c rest).text.length) →
      motive (c :: rest)) (text : List Char) : motive text := by
  induction h : text.length using Nat.strongRecOn generalizing text with
  | ind n ih =>
    cases text with
    | nil => exact nil
    | cons c rest => exact cons c rest (ih _ (h ▸ Lexeme.drop_first_length_lt c rest) _ rfl)

/-- The lexemes of a text, joined, are the text. -/
theorem flatMap_text_lexemes (text : List Char) : (lexemes text).flatMap Lexeme.text = text := by
  induction text using lexemes_induction with
  | nil => rw [lexemes_nil]; rfl
  | cons c rest ih => rw [lexemes_cons, List.flatMap_cons, ih, Lexeme.first_text_append_drop]

/-- Whatever holds of the first lexeme of every text holds of all lexemes. -/
theorem forall_mem_lexemes {p : Lexeme → Prop} (h : ∀ c rest, p (Lexeme.first c rest))
    {text : List Char} : ∀ l ∈ lexemes text, p l := by
  induction text using lexemes_induction with
  | nil => simp
  | cons c rest ih =>
    rw [lexemes_cons]
    exact List.forall_mem_cons.2 ⟨h c rest, ih⟩

/-! ## Tokens side by side -/

namespace Token

/-- Placing lexemes keeps what they are. -/
theorem map_toLexeme_place (offset : Nat) (ls : List Lexeme) :
    (place offset ls).map Token.toLexeme = ls := by
  induction ls generalizing offset with
  | nil => rfl
  | cons l later ih => rw [place_cons, List.map_cons, ih]

/-- A token stands behind all the lexemes before its own. -/
theorem exists_of_mem_place {offset : Nat} {ls : List Lexeme} {t : Token}
    (h : t ∈ place offset ls) :
    ∃ before after, ls = before ++ t.toLexeme :: after ∧
      t.start = offset + (before.flatMap Lexeme.text).length := by
  induction ls generalizing offset with
  | nil => simp at h
  | cons l later ih =>
    rw [place_cons, List.mem_cons] at h
    rcases h with rfl | h
    · exact ⟨[], later, rfl, by simp⟩
    · obtain ⟨before, after, rfl, hstart⟩ := ih h
      refine ⟨l :: before, after, rfl, ?_⟩
      rw [hstart, List.flatMap_cons, List.length_append, Nat.add_assoc]

/-- No lexeme is placed before the offset. -/
theorem le_start_of_mem_place {offset : Nat} {ls : List Lexeme} {t : Token}
    (h : t ∈ place offset ls) : offset ≤ t.start := by
  obtain ⟨before, after, -, hstart⟩ := exists_of_mem_place h
  omega

/-- A token that is placed is the first lexeme of what the text holds from its start on. -/
theorem exists_first_of_mem_place {offset : Nat} {text : List Char} {t : Token}
    (h : t ∈ place offset (lexemes text)) :
    ∃ c rest, text.drop (t.start - offset) = c :: rest ∧ t.toLexeme = Lexeme.first c rest := by
  induction text using lexemes_induction generalizing offset with
  | nil => simp at h
  | cons c rest ih =>
    rw [lexemes_cons, place_cons, List.mem_cons] at h
    rcases h with rfl | h
    · exact ⟨c, rest, by simp, rfl⟩
    · obtain ⟨d, later, hdrop, hfirst⟩ := ih h
      have hle := le_start_of_mem_place h
      have hstart : (Lexeme.first c rest).text.length +
          (t.start - (offset + (Lexeme.first c rest).text.length)) = t.start - offset := by omega
      rw [List.drop_drop, hstart] at hdrop
      exact ⟨d, later, hdrop, hfirst⟩

/-- Tokens that are placed side by side do not overlap. -/
theorem pairwise_place (offset : Nat) (ls : List Lexeme) :
    (place offset ls).Pairwise fun t u => t.stop ≤ u.start := by
  induction ls generalizing offset with
  | nil => exact List.Pairwise.nil
  | cons l later ih =>
    rw [place_cons, List.pairwise_cons]
    exact ⟨fun u hu => le_start_of_mem_place hu, ih _⟩

end Token

section Tokens

variable {text : List Char} {t : Token}

/-- Each token of a text is one of its lexemes. -/
theorem toLexeme_mem_lexemes (h : t ∈ tokens text) : t.toLexeme ∈ lexemes text := by
  rw [← Token.map_toLexeme_place 0 (lexemes text)]
  exact List.mem_map_of_mem h

/-- A token is what the text holds from its start on. -/
theorem drop_start_of_mem_tokens (h : t ∈ tokens text) :
    ∃ later, text.drop t.start = t.text ++ later := by
  obtain ⟨before, after, hls, hstart⟩ := Token.exists_of_mem_place h
  have htext : text = before.flatMap Lexeme.text ++ (t.text ++ after.flatMap Lexeme.text) := by
    rw [← List.flatMap_cons, ← List.flatMap_append, ← hls, flatMap_text_lexemes]
  refine ⟨after.flatMap Lexeme.text, ?_⟩
  rw [hstart, Nat.zero_add, htext, List.drop_left]

/-- A token is what the lexer takes first from where it starts. -/
theorem exists_first_of_mem_tokens (h : t ∈ tokens text) :
    ∃ c rest, text.drop t.start = c :: rest ∧ t.toLexeme = Lexeme.first c rest :=
  Token.exists_first_of_mem_place h

/-- No token is empty. -/
theorem start_lt_stop_of_mem_tokens (h : t ∈ tokens text) : t.start < t.stop := by
  have hne : t.text ≠ [] :=
    forall_mem_lexemes (p := fun l => l.text ≠ []) Lexeme.first_text_ne_nil _
      (toLexeme_mem_lexemes h)
  exact Nat.lt_add_of_pos_right (List.length_pos_iff.2 hne)

/-- Every token ends within the text. -/
theorem stop_le_length_of_mem_tokens (h : t ∈ tokens text) : t.stop ≤ text.length := by
  obtain ⟨later, hlater⟩ := drop_start_of_mem_tokens h
  have hlt := start_lt_stop_of_mem_tokens h
  have hlength := congrArg List.length hlater
  simp only [List.length_drop, List.length_append] at hlength
  simp only [Token.stop] at hlt ⊢
  omega

/-- The end of the file is not among the tokens of a text. -/
theorem kind_ne_eof_of_mem_tokens (h : t ∈ tokens text) : t.kind ≠ .eof :=
  forall_mem_lexemes (p := fun l => l.kind ≠ .eof) Lexeme.first_kind_ne_eof _
    (toLexeme_mem_lexemes h)

/-- Each token of a text ends before the next one starts. -/
theorem pairwise_tokens (text : List Char) :
    (tokens text).Pairwise fun t u => t.stop ≤ u.start :=
  Token.pairwise_place 0 (lexemes text)

/-- Tokens come in the order of their starts, and no two start at one place. -/
theorem pairwise_start_tokens (text : List Char) :
    (tokens text).Pairwise fun t u => t.start < u.start :=
  (pairwise_tokens text).imp_of_mem fun ht _ hle =>
    Nat.lt_of_lt_of_le (start_lt_stop_of_mem_tokens ht) hle

/-- Where the lexer reports nothing no token is at fault. -/
theorem fault_eq_none_of_mem_tokens (h : t ∈ tokens text) (hclean : lexicalDiagnostics text = []) :
    t.fault = none := by
  have hdiagnostic := List.filterMap_eq_nil_iff.mp hclean t h
  rw [Token.diagnostic?] at hdiagnostic
  exact Option.map_eq_none_iff.mp hdiagnostic

end Tokens

/-- The slice at a token's range is the token's text. -/
theorem slice_range_of_mem_tokens {source : SourceText} {t : Token}
    (h : t ∈ tokens source.toList) : source.slice t.range = String.ofList t.text := by
  obtain ⟨later, hlater⟩ := drop_start_of_mem_tokens h
  have hlength : t.stop - t.start = t.text.length := Nat.add_sub_cancel_left _ _
  rw [SourceText.slice_eq, Token.range_start, Token.range_stop, hlater, hlength, List.take_left]

end WorldDoc
