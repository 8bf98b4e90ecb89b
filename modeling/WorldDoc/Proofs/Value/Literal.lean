import WorldDoc.Proofs.Lexical.Placement
import WorldDoc.Proofs.Value.Numeral
import WorldDoc.Proofs.Value.StringLiteral
import WorldDoc.Value.Outline

/-!
# Lexer and decoder agree

A lexeme without a fault is of a kind that says what it writes: what the lexer calls a number the
decoder reads as a number, and likewise for strings, truth values and names
(`isSome_ofLiteral?_of_mem_tokens`).
-/

namespace WorldDoc

/-- The value that a text writes when it is taken for a single value of some kind. No single text
writes a list. -/
def Value.ofLiteral? (kind : ValueKind) (text : List Char) : Option Value :=
  match kind with
  | .string => (Literal.string? text).map fun content => .string (String.ofList content)
  | .number => (Literal.number? text).map .number
  | .boolean => (Literal.boolean? text).map .boolean
  | .identifier => some (.identifier (String.ofList text))
  | .list => none

open Lexeme

/-- What the lexer finds at the head of a text, if it finds no fault with it, has a value of each
kind that its token is taken for. -/
theorem isSome_ofLiteral?_first {c : Char} {rest : List Char}
    (hfault : (first c rest).fault = none) {kind : ValueKind}
    (hkind : ValueKind.ofToken? (first c rest).kind = some kind) :
    (Value.ofLiteral? kind (first c rest).text).isSome := by
  have hfirst := firstOf_first c rest
  generalize first c rest = l at hfault hkind hfirst
  cases hfirst with
  | quoted hc =>
    rw [string_kind] at hkind
    obtain rfl := Option.some.inj hkind
    obtain ⟨literal, htext, -⟩ := StringLiteral.exists_stringLiteral hfault
    rw [Value.ofLiteral?, ← htext, StringLiteral.string?_text]
    rfl
  | number hc =>
    obtain rfl := Option.some.inj hkind
    obtain ⟨numeral, htext⟩ := Numeral.exists_numeral_of_number hc
    show (Value.ofLiteral? .number (c :: numberTail rest)).isSome
    rw [← htext, Value.ofLiteral?, Literal.number?, Numeral.decimal?_text]
    rfl
  | name hc =>
    -- the decoder tells the words of the truth values from other names as the lexer does
    simp only [nameKind] at hkind ⊢
    split at hkind
    · rename_i htrue
      obtain rfl := Option.some.inj hkind
      rw [htrue]
      rfl
    · split at hkind
      · rename_i hfalse
        obtain rfl := Option.some.inj hkind
        rw [hfalse]
        rfl
      · obtain rfl := Option.some.inj hkind
        rfl
  | punctuation hc =>
    unfold punctuation? at hc
    split at hc <;> cases hc <;> contradiction
  | _ => exact absurd hkind (by simp [ValueKind.ofToken?])

/-- Every token of a text that is not at fault has a value of each kind that it is taken for. -/
theorem isSome_ofLiteral?_of_mem_tokens {text : List Char} {t : Token} (h : t ∈ tokens text)
    (hfault : t.fault = none) {kind : ValueKind} (hkind : ValueKind.ofToken? t.kind = some kind) :
    (Value.ofLiteral? kind t.text).isSome :=
  forall_mem_lexemes (p := fun l => l.fault = none → ∀ kind, ValueKind.ofToken? l.kind = some kind →
    (Value.ofLiteral? kind l.text).isSome) (fun _ _ hfault _ => isSome_ofLiteral?_first hfault)
    _ (toLexeme_mem_lexemes h) hfault kind hkind

end WorldDoc
