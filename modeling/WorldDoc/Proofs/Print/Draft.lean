import WorldDoc.Citizen.Basic
import WorldDoc.Proofs.Lexical.Layout
import WorldDoc.Proofs.Value.Numeral
import WorldDoc.Proofs.Value.StringLiteral

/-!
# Drafts

A draft is a document before it is written down: declarations with their names and fields, each
value given by the literal that is to write it. Where the grammar leaves a choice the draft says
what is chosen, a comma behind a field or behind the last member of a list; only the layout is left
open. A draft has lexemes (`Draft.lexemes`) and citizens (`Draft.citizens`), and no list in it is
nested deeper than its `nesting` says.

Every lexeme of a draft is read off the front of any text that it is separated from
(`printable_lexemes`), so any layout will do to print it.
-/

namespace WorldDoc

open Lexical

/-- The text of an identifier: a character that starts a name and others that go on with it. The
words for truth values are none. -/
structure Identifier where
  head : Char
  tail : List Char
  isNameStart_head : isNameStart head = true
  isNameContinue_of_mem : ∀ c ∈ tail, isNameContinue c = true
  ne_true : head :: tail ≠ "true".toList
  ne_false : head :: tail ≠ "false".toList

/-- The characters of an identifier. -/
def Identifier.text (i : Identifier) : List Char := i.head :: i.tail

namespace Draft

/-- The name of a declaration or the key of a field: an identifier, or a string literal that is kept
with its quotes. -/
inductive Word where
  | identifier (i : Identifier)
  | string (l : StringLiteral)

/-- A value as it is to be written. -/
inductive Value where
  | string (l : StringLiteral)
  | number (n : Numeral)
  | boolean (b : Bool)
  | identifier (i : Identifier)
  | list (items : List Value) (trailingComma : Bool)

/-- A field, and whether a comma comes behind it. -/
structure Field where
  key : Word
  value : Value
  comma : Bool

/-- A declaration. -/
structure Declaration where
  kind : CitizenKind
  name : Word
  fields : List Field

/-! ## Lexemes -/

/-- The lexeme of a punctuation mark. -/
def mark (kind : TokenKind) (c : Char) : Lexeme := ⟨kind, [c], none⟩

/-- The characters of a word. -/
def Word.text : Word → List Char
  | .identifier i => i.text
  | .string l => l.text

/-- The lexeme of a word. -/
def Word.lexeme : Word → Lexeme
  | .identifier i => ⟨.identifier, i.text, none⟩
  | .string l => ⟨.string, l.text, none⟩

mutual

/-- The lexemes of a value. -/
def Value.lexemes : Value → List Lexeme
  | .string l => [⟨.string, l.text, none⟩]
  | .number n => [⟨.number, n.text, none⟩]
  | .boolean true => [⟨.trueWord, "true".toList, none⟩]
  | .boolean false => [⟨.falseWord, "false".toList, none⟩]
  | .identifier i => [⟨.identifier, i.text, none⟩]
  | .list items trailingComma =>
    mark .lbracket '[' :: (itemLexemes trailingComma items ++ [mark .rbracket ']'])

/-- The lexemes of the members of a list, with a comma between any two and perhaps one behind the
last. -/
def itemLexemes (trailingComma : Bool) : List Value → List Lexeme
  | [] => []
  | v :: later =>
    if later.isEmpty && !trailingComma then v.lexemes
    else v.lexemes ++ mark .comma ',' :: itemLexemes trailingComma later

end

/-- The lexemes of a field and of the comma behind it. -/
def Field.lexemes (f : Field) : List Lexeme :=
  f.key.lexeme :: mark .colon ':' ::
    (f.value.lexemes ++ if f.comma then [mark .comma ','] else [])

/-- The lexemes of a declaration. -/
def Declaration.lexemes (d : Declaration) : List Lexeme :=
  ⟨.directive, d.kind.directive, none⟩ :: d.name.lexeme :: mark .lbrace '\x7b' ::
    (d.fields.flatMap Field.lexemes ++ [mark .rbrace '\x7d'])

/-- The lexemes of a document. -/
def lexemes (ds : List Declaration) : List Lexeme := ds.flatMap Declaration.lexemes

/-! ## Meaning -/

mutual

/-- The value that is meant. -/
def Value.value : Value → WorldDoc.Value
  | .string l => .string (String.ofList l.content)
  | .number n => .number n.decimal.toBinary64
  | .boolean b => .boolean b
  | .identifier i => .identifier (String.ofList i.text)
  | .list items _ => .list (values items)

/-- The values that are meant. -/
def values : List Value → List WorldDoc.Value
  | [] => []
  | v :: later => v.value :: values later

end

/-- The key and the value of a field. -/
def Field.pair (f : Field) : String × WorldDoc.Value := (String.ofList f.key.text, f.value.value)

/-- The citizen of a declaration: a key that comes again keeps its first place and its last
value. -/
def Declaration.citizen (d : Declaration) : Citizen :=
  ⟨d.kind, String.ofList d.name.text, .ofList (d.fields.map Field.pair)⟩

/-- The citizens of a document. -/
def citizens (ds : List Declaration) : List Citizen := ds.map Declaration.citizen

/-! ## Nesting -/

mutual

/-- How many lists lie within one another in a value. -/
def Value.nesting : Value → Nat
  | .list items _ => nestingAll items + 1
  | _ => 0

/-- How many lists lie within one another among some values. -/
def nestingAll : List Value → Nat
  | [] => 0
  | v :: later => max v.nesting (nestingAll later)

end

/-- No list of the document is nested more than `depth` deep. -/
def Within (depth : Nat) (ds : List Declaration) : Prop :=
  ∀ d ∈ ds, ∀ f ∈ d.fields, f.value.nesting ≤ depth

/-! ## Every lexeme stands by itself -/

section Stands

/-- A character that begins a piece of layout goes on with no lexeme. -/
theorem classes_of_separator {c : Char}
    (h : isBlank c = true ∨ isBreak c = true ∨ c = '#' ∨ c = '/') :
    isDigit c = false ∧ c ≠ '.' ∧ c ≠ 'e' ∧ c ≠ 'E' ∧ c ≠ '"' ∧ isNameContinue c = false := by
  simp only [isBlank, isBreak, Bool.or_eq_true, decide_eq_true_eq] at h
  rcases h with (((rfl | rfl) | rfl) | rfl) | (rfl | rfl) | rfl | rfl
  all_goals decide +kernel

variable {rest : List Char}

/-- A numeral ends where something separates it from what comes next. -/
theorem ends_of_separated (h : Separated rest) : Numeral.Ends rest := by
  intro c hc
  obtain ⟨hdigit, hpoint, hlower, hupper, -⟩ := classes_of_separator (h c hc)
  exact ⟨hdigit, hpoint, hlower, hupper⟩

/-- No quote comes next where something separates. -/
theorem head?_ne_quote_of_separated (h : Separated rest) : rest.head? ≠ some '"' := by
  intro hc
  obtain ⟨-, -, -, -, hquote, -⟩ := classes_of_separator (h '"' hc)
  exact hquote rfl

/-- The characters that go on with a name are taken up to what separates it from the rest. -/
theorem takeWhile_isNameContinue {tail : List Char} (htail : ∀ c ∈ tail, isNameContinue c = true)
    (h : Separated rest) : (tail ++ rest).takeWhile isNameContinue = tail := by
  rw [List.takeWhile_append_of_pos htail]
  have hstop : rest.takeWhile isNameContinue = [] := by
    cases rest with
    | nil => rfl
    | cons c later =>
      obtain ⟨-, -, -, -, -, hcontinue⟩ := classes_of_separator (h c rfl)
      rw [List.takeWhile_cons_of_neg (by simp [hcontinue])]
  rw [hstop, List.append_nil]

/-- A name stands as a lexeme of its own, be it a word for a truth value or an identifier. -/
theorem stands_name {head : Char} {tail : List Char} (hhead : isNameStart head = true)
    (htail : ∀ c ∈ tail, isNameContinue c = true) :
    Lexeme.Stands ⟨Lexeme.nameKind (head :: tail), head :: tail, none⟩ := by
  refine ⟨head, tail, rfl, fun rest hrest => ?_⟩
  rw [Lexeme.first_of_isNameStart hhead, takeWhile_isNameContinue htail hrest]

/-- An identifier stands as a lexeme of its own: the words for truth values are none. -/
theorem stands_identifier (i : Identifier) : Lexeme.Stands ⟨.identifier, i.text, none⟩ := by
  have hkind : Lexeme.nameKind (i.head :: i.tail) = .identifier := by
    rw [Lexeme.nameKind, if_neg i.ne_true, if_neg i.ne_false]
  have h := stands_name i.isNameStart_head i.isNameContinue_of_mem
  rwa [hkind] at h

/-- A word for a truth value stands as a lexeme of its own. -/
theorem stands_boolean (b : Bool) : ∀ l ∈ (Value.boolean b).lexemes, l.Stands := by
  cases b with
  | true =>
    intro l hl
    obtain rfl := List.mem_singleton.mp hl
    exact stands_name (by decide) (List.all_eq_true.mp (by decide))
  | false =>
    intro l hl
    obtain rfl := List.mem_singleton.mp hl
    exact stands_name (by decide) (List.all_eq_true.mp (by decide))

/-- A string literal stands as a lexeme of its own. -/
theorem stands_string (l : StringLiteral) : Lexeme.Stands ⟨.string, l.text, none⟩ := by
  obtain ⟨c, later, htext⟩ : ∃ c later, l.text = c :: later := by
    obtain ⟨quotes, content, hfit⟩ := l
    cases quotes
    · exact ⟨'"', _, rfl⟩
    · exact ⟨'"', _, rfl⟩
  refine ⟨c, later, htext, fun rest hrest => ?_⟩
  rw [StringLiteral.first_stringLiteral l (fun _ => head?_ne_quote_of_separated hrest) htext,
    ← htext]

/-- A numeral stands as a lexeme of its own. -/
theorem stands_number (n : Numeral) : Lexeme.Stands ⟨.number, n.text, none⟩ := by
  obtain ⟨c, later, htext⟩ : ∃ c later, n.text = c :: later := by
    refine List.exists_cons_of_ne_nil fun hnil => ?_
    have hne := n.whole.ne_nil
    rw [Numeral.text] at hnil
    split at hnil
    · contradiction
    · exact hne (List.append_eq_nil_iff.mp hnil).1
  refine ⟨c, later, htext, fun rest hrest => ?_⟩
  rw [Numeral.first_numeral n (ends_of_separated hrest) htext, ← htext]

/-- A punctuation mark stands as a lexeme of its own. -/
theorem stands_mark {kind : TokenKind} {c : Char} (h : Lexeme.punctuation? c = some kind) :
    (mark kind c).Stands :=
  ⟨c, [], rfl, fun _ _ => Lexeme.first_of_punctuation? h⟩

/-- A directive stands as a lexeme of its own. -/
theorem stands_directive (k : CitizenKind) : Lexeme.Stands ⟨.directive, k.directive, none⟩ := by
  have hword : ∃ head tail, k.word.toList = head :: tail ∧ isNameStart head = true ∧
      ∀ c ∈ tail, isNameContinue c = true := by
    rcases k with _ | k
    · exact ⟨_, _, rfl, by decide, List.all_eq_true.mp (by decide)⟩
    · cases k <;> exact ⟨_, _, rfl, by decide, List.all_eq_true.mp (by decide)⟩
  obtain ⟨head, tail, htext, hhead, htail⟩ := hword
  refine ⟨'@', head :: tail, by rw [CitizenKind.directive, htext], fun rest hrest => ?_⟩
  have hcontinue : isNameContinue head = true := Lexeme.isNameContinue_of_isNameStart hhead
  have hfirst : Lexeme.first '@' (head :: tail ++ rest) =
      ⟨.directive, '@' :: (head :: tail ++ rest).takeWhile isNameContinue, none⟩ :=
    Lexeme.first_at hhead
  rw [hfirst, takeWhile_isNameContinue (List.forall_mem_cons.mpr ⟨hcontinue, htail⟩) hrest,
    CitizenKind.directive, htext]

mutual

/-- All lexemes of a value can be printed. -/
theorem printable_value : (v : Value) → ∀ l ∈ v.lexemes, l.Printable
  | .string literal, l, hl => by
      obtain rfl := List.mem_singleton.mp hl
      exact ⟨stands_string literal, rfl, rfl⟩
  | .number n, l, hl => by
      obtain rfl := List.mem_singleton.mp hl
      exact ⟨stands_number n, rfl, rfl⟩
  | .boolean true, l, hl => by
      have hstands := stands_boolean true l hl
      obtain rfl := List.mem_singleton.mp hl
      exact ⟨hstands, rfl, rfl⟩
  | .boolean false, l, hl => by
      have hstands := stands_boolean false l hl
      obtain rfl := List.mem_singleton.mp hl
      exact ⟨hstands, rfl, rfl⟩
  | .identifier i, l, hl => by
      obtain rfl := List.mem_singleton.mp hl
      exact ⟨stands_identifier i, rfl, rfl⟩
  | .list items trailingComma, l, hl => by
      simp only [Value.lexemes, List.mem_cons, List.mem_append, List.not_mem_nil, or_false] at hl
      rcases hl with rfl | hl | rfl
      · exact ⟨stands_mark rfl, rfl, rfl⟩
      · exact printable_items trailingComma items l hl
      · exact ⟨stands_mark rfl, rfl, rfl⟩

/-- All lexemes of the members of a list can be printed, the commas among them. -/
theorem printable_items (trailingComma : Bool) :
    (items : List Value) → ∀ l ∈ itemLexemes trailingComma items, l.Printable
  | [], l, hl => absurd hl (by simp [itemLexemes])
  | v :: later, l, hl => by
      rw [itemLexemes] at hl
      split at hl
      · exact printable_value v l hl
      · rcases List.mem_append.mp hl with hl | hl
        · exact printable_value v l hl
        · rcases List.mem_cons.mp hl with rfl | hl
          · exact ⟨stands_mark rfl, rfl, rfl⟩
          · exact printable_items trailingComma later l hl

end

/-- The lexeme of a name or key can be printed. -/
theorem printable_word (w : Word) : w.lexeme.Printable := by
  cases w with
  | identifier i => exact ⟨stands_identifier i, rfl, rfl⟩
  | string l => exact ⟨stands_string l, rfl, rfl⟩

/-- All lexemes of a field can be printed. -/
theorem printable_field (f : Field) : ∀ l ∈ f.lexemes, l.Printable := by
  intro l hl
  simp only [Field.lexemes, List.mem_cons, List.mem_append] at hl
  rcases hl with rfl | rfl | hl | hl
  · exact printable_word f.key
  · exact ⟨stands_mark rfl, rfl, rfl⟩
  · exact printable_value f.value l hl
  · split at hl
    · obtain rfl := List.mem_singleton.mp hl
      exact ⟨stands_mark rfl, rfl, rfl⟩
    · exact absurd hl List.not_mem_nil

/-- The lexemes of a document can be printed with any layout. -/
theorem printable_lexemes (ds : List Declaration) : ∀ l ∈ lexemes ds, l.Printable := by
  intro l hl
  obtain ⟨d, -, hl⟩ := List.mem_flatMap.mp hl
  simp only [Declaration.lexemes, List.mem_cons, List.mem_append, List.mem_flatMap,
    List.not_mem_nil, or_false] at hl
  rcases hl with rfl | rfl | rfl | ⟨f, -, hl⟩ | rfl
  · exact ⟨stands_directive d.kind, rfl, rfl⟩
  · exact printable_word d.name
  · exact ⟨stands_mark rfl, rfl, rfl⟩
  · exact printable_field f l hl
  · exact ⟨stands_mark rfl, rfl, rfl⟩

end Stands

end Draft

end WorldDoc
