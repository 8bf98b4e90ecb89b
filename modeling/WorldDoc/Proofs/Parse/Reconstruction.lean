import WorldDoc.Proofs.Parse.Derivation
import WorldDoc.Proofs.Parse.Reading

/-!
# Derivations are read back

Where the tokens ahead begin with those of a derivation, the routine for its nonterminal takes
exactly these tokens, reports nothing and yields the tree of the derivation: `value_tokens`,
`field_tokens`, `declaration_tokens`, `sourceFile_tokens`. The routines look one token ahead, so
what stands behind a derivation matters only where the grammar leaves a choice: behind the items of
a list there has to be a bracket, and behind the fields of a body a brace.
-/

namespace WorldDoc

open Parse Parse.State

/-- Where a node lies is a matter of its elements, if it has any. -/
theorem Derivation.branch_eq_nodeOver (source : SourceText) (kind : NodeKind) (offset : Nat)
    (t : SyntaxTree) (ts : List SyntaxTree) :
    SyntaxTree.branch source (.node kind) offset (t :: ts) = nodeOver source kind (t :: ts) := rfl

/-- The directive of a kind declares that kind and no other. -/
theorem CitizenKind.ofDirective?_directive (k : CitizenKind) :
    ofDirective? k.directive = some k := by
  rcases k with _ | k
  · rfl
  · cases k <;> decide

namespace Parse

variable {c : Context} {s : State} {t : Token} {later : List Token}

/-! ## A token of the right kind -/

namespace State

/-- The current kind is that of the first token ahead. -/
theorem kind_of_ahead (h : s.ahead = t :: later) : s.kind = t.kind := by
  rw [State.kind, h]

/-- The current text is that of the first token ahead. -/
theorem text_of_ahead (h : s.ahead = t :: later) : s.text = t.text := by
  rw [State.text, h]

/-- One leaf shows the first token ahead. -/
theorem leaves_one (h : s.ahead = t :: later) : s.leaves c 1 = [leafOf c t] := by
  rw [State.leaves, h]
  rfl

/-- Taking one token leaves the later ones ahead. -/
theorem skip_one_ahead (h : s.ahead = t :: later) : (s.skip 1).ahead = later := by
  rw [skip_ahead, h]
  rfl

/-- Wrapping one token makes a node over its leaf. -/
theorem wrap_one (kind : NodeKind) (h : s.ahead = t :: later) :
    s.wrap c kind 1 = (Derivation.nodeOver c.source kind [leafOf c t], s.skip 1) := by
  rw [wrap, leaves_one h, Derivation.branch_eq_nodeOver]

/-- A token of the right kind is accepted. -/
theorem accept_of_ahead {kind : TokenKind} (h : s.ahead = t :: later) (hkind : t.kind = kind) :
    s.accept c kind = (some (leafOf c t), s.skip 1) := by
  rw [State.accept, h]
  exact if_pos hkind

/-- A token of another kind is left where it is. -/
theorem accept_of_kind_ne {kind : TokenKind} (h : s.kind ≠ kind) : s.accept c kind = (none, s) := by
  unfold State.accept
  split
  · rfl
  · rename_i hahead
    exact if_neg (kind_of_ahead hahead ▸ h)

/-- A token of the right kind is as expected, and nothing is reported. -/
theorem expect_of_ahead {kind : TokenKind} (h : s.ahead = t :: later) (hkind : t.kind = kind) :
    s.expect c kind = (some (leafOf c t), s.skip 1) := by
  rw [State.expect, accept_of_ahead h hkind]

/-- A token of another kind is reported and left where it is. -/
theorem expect_of_kind_ne {kind : TokenKind} (h : s.kind ≠ kind) :
    s.expect c kind = (none, s.report c .expectedToken
      s!"Expected {kind.display}, found {s.kind.display}") := by
  rw [State.expect, accept_of_kind_ne h]

end State

/-- The first token of a value ends no list. -/
theorem endsList_value (v : Derivation.Value) {rest : List Token}
    (h : s.ahead = v.tokens ++ rest) : endsList s.kind = false := by
  cases v with
  | scalar token kind writes =>
    rw [kind_of_ahead (s := s) h]
    cases htoken : token.kind <;> simp [htoken, ValueKind.ofToken?, endsList] at writes ⊢
  | list opening items closing =>
    rw [kind_of_ahead (s := s) h, opening.2]
    rfl

/-! ## Values and lists -/

section Items

variable {element : ValueRoutine} {next after : State} {value comma : SyntaxTree}

/-- Where the list ends there are no more items. -/
theorem items_end (h : endsList s.kind = true) : items c element s = ([], s) := by
  rw [items, if_pos h]

/-- A token that starts no value is wrapped as an error, and the items go on behind it. -/
theorem items_none (h : endsList s.kind = false) (hvalue : element.run s = (none, next)) :
    items c element s = ((next.wrap c .error 1).1 :: (items c element (next.skip 1)).1,
      (items c element (next.skip 1)).2) := by
  rw [items, if_neg (by simp [h])]
  grind

/-- Without a comma behind it a value is the last item. -/
theorem items_last {same : State} (h : endsList s.kind = false)
    (hvalue : element.run s = (some value, next))
    (hcomma : next.accept c .comma = (none, same)) : items c element s = ([value], next) := by
  rw [items, if_neg (by simp [h])]
  grind

/-- A comma behind a value leads on to more items. -/
theorem items_more (h : endsList s.kind = false) (hvalue : element.run s = (some value, next))
    (hcomma : next.accept c .comma = (some comma, after)) :
    items c element s =
      (value :: comma :: (items c element after).1, (items c element after).2) := by
  rw [items, if_neg (by simp [h])]
  grind

end Items

/-- A state that has the tokens of `xs ++ ys` ahead has those of `ys` ahead once it has taken as
many tokens as `xs` has. -/
theorem skip_length_ahead {xs ys : List Token} (h : s.ahead = xs ++ ys) :
    (s.skip xs.length).ahead = ys := by
  rw [skip_ahead, h, List.drop_left]

mutual

/-- The tokens of a value are read as that value. -/
theorem value_tokens : (v : Derivation.Value) → {levels : Nat} → {s : State} →
    {rest : List Token} → v.nesting ≤ levels → s.ahead = v.tokens ++ rest →
    value c levels s = (some (v.tree c.source), s.skip v.tokens.length)
  | .scalar token kind writes, levels, s, rest, _, h => by
      have hkind : s.kind = token.kind := kind_of_ahead h
      have hbracket : s.kind ≠ .lbracket := by
        intro hb
        rw [hkind] at hb
        rw [hb] at writes
        exact absurd writes (by simp [ValueKind.ofToken?])
      simp only [value, valueOf, if_neg hbracket]
      rw [hkind, writes]
      simp only
      rw [wrap_one _ h]
      rfl
  | .list opening items closing, levels, s, rest, hnesting, h => by
      obtain ⟨levels, rfl⟩ : ∃ l, levels = l + 1 := by
        refine ⟨levels - 1, ?_⟩
        simp only [Derivation.Value.nesting] at hnesting
        omega
      have hopening : s.ahead = opening.1 :: (items.tokens ++ closing.1 :: rest) := by
        rw [h, Derivation.Value.tokens]
        simp
      -- behind the opening bracket come the items, and behind them the closing bracket
      have hitems : (s.skip 1).ahead = items.tokens ++ closing.1 :: rest :=
        skip_one_ahead hopening
      have hclosing := skip_length_ahead hitems
      have hread : Parse.items c (valueOf c (lists c levels)) (s.skip 1) =
          (items.trees c.source, (s.skip 1).skip items.tokens.length) :=
        items_tokens items (Nat.le_of_succ_le_succ hnesting) hitems closing.2
      have hkind : s.kind = .lbracket := by rw [kind_of_ahead hopening, opening.2]
      simp only [value, valueOf, if_pos hkind]
      simp only [lists, listOf, hread, expect_of_ahead hclosing closing.2, leaves_one hopening,
        List.singleton_append, Derivation.branch_eq_nodeOver]
      have hlength : 1 + (items.tokens.length + 1) =
          (Derivation.Value.list opening items closing).tokens.length := by
        simp [Derivation.Value.tokens]
        omega
      rw [skip_skip, skip_skip, hlength]
      rfl

/-- The tokens between the brackets of a list are read as the items of that list. -/
theorem items_tokens : (is : Derivation.Items) → {levels : Nat} → {s : State} →
    {close : Token} → {rest : List Token} → is.nesting ≤ levels →
    s.ahead = is.tokens ++ close :: rest → close.kind = .rbracket →
    items c (valueOf c (lists c levels)) s = (is.trees c.source, s.skip is.tokens.length)
  | .none, levels, s, close, rest, _, h, hclose => by
      refine items_end ?_
      rw [kind_of_ahead (s := s) h, hclose]
      rfl
  | .last v, levels, s, close, rest, hnesting, h, hclose => by
      have hahead : s.ahead = v.tokens ++ close :: rest := h
      have hread := value_tokens v hnesting hahead
      have hcomma : (s.skip v.tokens.length).kind ≠ .comma := by
        rw [kind_of_ahead (skip_length_ahead hahead), hclose]
        decide
      exact items_last (endsList_value v hahead) hread (accept_of_kind_ne hcomma)
  | .more v comma later, levels, s, close, rest, hnesting, h, hclose => by
      have hahead : s.ahead = v.tokens ++ comma.1 :: (later.tokens ++ close :: rest) := by
        rw [h, Derivation.Items.tokens]
        simp
      have hnext := skip_length_ahead hahead
      have hread := value_tokens v (Nat.le_trans (Nat.le_max_left _ _) hnesting) hahead
      have hlater := items_tokens later (Nat.le_trans (Nat.le_max_right _ _) hnesting)
        (skip_one_ahead hnext) hclose
      rw [items_more (endsList_value v hahead) hread (accept_of_ahead hnext comma.2), hlater,
        skip_skip, skip_skip]
      have hlength : v.tokens.length + (1 + later.tokens.length) =
          (Derivation.Items.more v comma later).tokens.length := by
        simp [Derivation.Items.tokens, Nat.add_comm]
      rw [hlength]
      rfl

end

/-! ## Fields and bodies -/

/-- The tokens of a field are read as that field. -/
theorem field_tokens (f : Derivation.Field) {rest : List Token}
    (hnesting : f.value.nesting ≤ c.limit.depth) (h : s.ahead = f.tokens ++ rest) :
    field c s = (f.tree c.source, s.skip f.tokens.length) := by
  have hkey : s.ahead = f.key.1 :: (f.colon.1 :: (f.value.tokens ++ rest)) := h
  have hcolon := skip_one_ahead hkey
  have hvalue := value_tokens (c := c) f.value hnesting (skip_one_ahead hcolon)
  simp only [field, wrap_one _ hkey, expect_of_ahead hcolon f.colon.2, Option.isSome_some, if_true,
    hvalue, Option.toList_some, List.singleton_append, Derivation.branch_eq_nodeOver]
  have hlength : 1 + (1 + f.value.tokens.length) = f.tokens.length := by
    simp [Derivation.Field.tokens]
    omega
  rw [skip_skip, skip_skip, hlength]
  rfl

/-- The token of a name is one the parser takes for a name. -/
theorem isNameToken_name (n : Derivation.Name) : isNameToken n.1.kind = true := by
  rcases n.2 with h | h <;> rw [h] <;> rfl

/-- A name does not end the fields of a body. -/
theorem endsBody_name (n : Derivation.Name) : endsBody n.1.kind = false := by
  rcases n.2 with h | h <;> rw [h] <;> rfl

/-- Where the body ends there are no more fields. -/
theorem body_end (h : endsBody s.kind = true) : body c s = ([], s) := by
  rw [body, if_pos h]

/-- A name token starts a field, a comma behind it may be left out, and more fields follow. -/
theorem body_field (hends : endsBody s.kind = false) (hname : isNameToken s.kind = true) :
    body c s = ((field c s).1 :: (((field c s).2.accept c .comma).1.toList ++
      (body c ((field c s).2.accept c .comma).2).1),
        (body c ((field c s).2.accept c .comma).2).2) := by
  rw [body, if_neg (by simp [hends]), if_pos hname]

/-- A token that starts no field is reported and wrapped, and the fields go on behind it. -/
theorem body_misplaced (hends : endsBody s.kind = false) (hname : isNameToken s.kind = false) :
    body c s =
      ((((s.report c .unexpectedToken
          s!"Unexpected {s.kind.display}; expected a field `key: value`").wrap c .error 1).1 ::
        (body c ((s.report c .unexpectedToken
          s!"Unexpected {s.kind.display}; expected a field `key: value`").skip 1)).1),
      (body c ((s.report c .unexpectedToken
        s!"Unexpected {s.kind.display}; expected a field `key: value`").skip 1)).2) := by
  rw [body, if_neg (by simp [hends]), if_neg (by simp [hname])]

/-- Behind the fields of a body stands the brace that closes it, or the key of the next field; a
comma is neither. -/
theorem kind_ne_comma_of_fields {close : Token} {rest : List Token}
    (fs : List (Derivation.Field × Option (Derivation.Terminal .comma)))
    (hclose : close.kind = .rbrace)
    (h : s.ahead = fs.flatMap Derivation.fieldTokens ++ close :: rest) : s.kind ≠ .comma := by
  cases fs with
  | nil =>
    rw [kind_of_ahead h, hclose]
    decide
  | cons f fs =>
    rw [kind_of_ahead (t := f.1.key.1) h]
    rcases f.1.key.2 with hkey | hkey <;> rw [hkey] <;> decide

/-- The comma behind a field is taken if it is there. -/
theorem accept_comma (comma : Option (Derivation.Terminal .comma))
    (hahead : s.ahead = (comma.map Subtype.val).toList ++ later)
    (hnone : comma = none → s.kind ≠ .comma) :
    s.accept c .comma = (comma.map fun comma => leafOf c comma.1,
      s.skip (comma.map Subtype.val).toList.length) := by
  cases comma with
  | none => exact accept_of_kind_ne (hnone rfl)
  | some comma => exact accept_of_ahead hahead comma.2

/-- The tokens of the fields of a body, with the commas behind them, are read as these fields. -/
theorem body_tokens {close : Token} {rest : List Token}
    (fs : List (Derivation.Field × Option (Derivation.Terminal .comma)))
    (hnesting : ∀ f ∈ fs, f.1.value.nesting ≤ c.limit.depth) (hclose : close.kind = .rbrace)
    (h : s.ahead = fs.flatMap Derivation.fieldTokens ++ close :: rest) :
    body c s = (fs.flatMap (Derivation.fieldTrees c.source),
      s.skip (fs.flatMap Derivation.fieldTokens).length) := by
  induction fs generalizing s with
  | nil =>
    refine body_end ?_
    rw [kind_of_ahead (s := s) h, hclose]
    rfl
  | cons f fs ih =>
    obtain ⟨f, comma⟩ := f
    have hahead : s.ahead = f.tokens ++ ((comma.map Subtype.val).toList ++
        (fs.flatMap Derivation.fieldTokens ++ close :: rest)) := by
      rw [h, List.flatMap_cons, Derivation.fieldTokens]
      simp only [List.append_assoc]
    have hkind : s.kind = f.key.1.kind := kind_of_ahead (s := s) hahead
    have hfield := field_tokens f (hnesting (f, comma) List.mem_cons_self) hahead
    have hbehind := skip_length_ahead hahead
    -- where no comma is written none may follow, or it would be taken for this field's
    have hcomma := accept_comma (c := c) comma hbehind (by
      rintro rfl
      exact kind_ne_comma_of_fields fs hclose hbehind)
    have hlater := ih (fun g hg => hnesting g (List.mem_cons_of_mem _ hg))
      (skip_length_ahead hbehind)
    rw [body_field (hkind ▸ endsBody_name f.key) (hkind ▸ isNameToken_name f.key), hfield, hcomma,
      hlater, skip_skip, skip_skip, ← List.length_append, ← List.length_append]
    rfl

/-! ## Declarations and documents -/

/-- The name of a derivation is read back without a report. -/
theorem declarationName_name (n : Derivation.Name) (h : s.ahead = n.1 :: later) :
    declarationName c s =
      ([Derivation.nodeOver c.source .name [leafOf c n.1]], s.skip 1) := by
  rw [declarationName, if_pos (kind_of_ahead h ▸ isNameToken_name n), wrap_one _ h]

/-- The tokens of a declaration are read as that declaration. -/
theorem declaration_tokens (d : Derivation.Declaration) {rest : List Token}
    (hnesting : d.Within c.limit.depth) (h : s.ahead = d.tokens ++ rest) :
    declaration c s = (d.tree c.source, s.skip d.tokens.length) := by
  have hdirective : s.ahead = d.directive.1 :: (d.name.1 :: d.opening.1 ::
      (d.fields.flatMap Derivation.fieldTokens ++ d.closing.1 :: rest)) := by
    rw [h, Derivation.Declaration.tokens]
    simp
  have hname := skip_one_ahead hdirective
  have hopening := skip_one_ahead hname
  have hfields := skip_one_ahead hopening
  have hclosing := skip_length_ahead hfields
  have hkind : CitizenKind.ofDirective? s.text = some d.kind := by
    rw [text_of_ahead hdirective, d.text_directive, CitizenKind.ofDirective?_directive]
  have hblock : block c ((s.skip 1).skip 1) =
      (leafOf c d.opening.1 :: (d.fields.flatMap (Derivation.fieldTrees c.source) ++
          [leafOf c d.closing.1]),
        s.skip d.tokens.length) := by
    simp only [block, expect_of_ahead hopening d.opening.2, body_tokens d.fields hnesting
      d.closing.2 hfields, expect_of_ahead hclosing d.closing.2, Option.toList_some]
    have hlength : 1 + (1 + (1 + ((d.fields.flatMap Derivation.fieldTokens).length + 1))) =
        d.tokens.length := by
      simp only [Derivation.Declaration.tokens, List.length_cons, List.length_append,
        List.length_nil]
      omega
    rw [skip_skip, skip_skip, skip_skip, skip_skip, hlength]
  simp only [declaration, hkind, declarationName_name d.name hname, hblock, leaves_one hdirective,
    List.singleton_append, Derivation.branch_eq_nodeOver]
  rfl

/-- At the end of the file there are no more declarations. -/
theorem declarations_end (h : s.kind = .eof) : declarations c s = ([], s) := by
  rw [declarations, if_pos h]

/-- A directive starts a declaration, and more follow. -/
theorem declarations_directive (h : s.kind = .directive) :
    declarations c s = ((declaration c s).1 :: (declarations c (declaration c s).2).1,
      (declarations c (declaration c s).2).2) := by
  rw [declarations, if_neg (by rw [h]; decide)]
  simp only [if_pos h]

/-- Any other token is stray, and the declarations go on behind the stray ones. -/
theorem declarations_stray (h : s.kind ≠ .directive) (heof : s.kind ≠ .eof) :
    declarations c s = ((strayTokens c s).1 :: (declarations c (strayTokens c s).2).1,
      (declarations c (strayTokens c s).2).2) := by
  rw [declarations, if_neg heof]
  simp only [if_neg h]

/-- The tokens of some declarations are read as these declarations, whatever stands behind them. -/
theorem declarations_tokens_append (ds : List Derivation.Declaration) {rest : List Token}
    (hnesting : ∀ d ∈ ds, d.Within c.limit.depth)
    (h : s.ahead = ds.flatMap Derivation.Declaration.tokens ++ rest) :
    let behind := s.skip (ds.flatMap Derivation.Declaration.tokens).length
    declarations c s = (ds.map (Derivation.Declaration.tree c.source) ++ (declarations c behind).1,
      (declarations c behind).2) := by
  induction ds generalizing s with
  | nil =>
    obtain ⟨ahead, offset, reports⟩ := s
    rfl
  | cons d ds ih =>
    rw [List.flatMap_cons, List.append_assoc] at h
    have hkind : s.kind = .directive := by
      rw [kind_of_ahead (s := s) (t := d.directive.1) h, d.directive.2]
    have hread := declaration_tokens d (hnesting d List.mem_cons_self) h
    have hlater := ih (fun e he => hnesting e (List.mem_cons_of_mem _ he)) (skip_length_ahead h)
    simp only [skip_skip, ← List.length_append, ← List.flatMap_cons] at hlater
    rw [declarations_directive hkind, hread, hlater]
    rfl

/-- The declarations of a derivation are read back, if no list is nested too deep. -/
theorem declarations_tokens (ds : List Derivation.Declaration)
    (hnesting : ∀ d ∈ ds, d.Within c.limit.depth)
    (h : s.ahead = ds.flatMap Derivation.Declaration.tokens) :
    declarations c s = (ds.map (Derivation.Declaration.tree c.source),
      s.skip (ds.flatMap Derivation.Declaration.tokens).length) := by
  rw [← List.append_nil (ds.flatMap _)] at h
  have hend : (s.skip (ds.flatMap Derivation.Declaration.tokens).length).kind = .eof := by
    rw [State.kind, skip_length_ahead h]
  rw [declarations_tokens_append ds hnesting h, declarations_end hend, List.append_nil]

/-- The tokens of a document are read as that document. -/
theorem sourceFile_tokens (d : Derivation.Document) (hnesting : d.Within c.limit.depth)
    (h : s.ahead = d.tokens) (hoffset : s.offset = 0) :
    sourceFile c s = (d.tree c.source, s.skip d.tokens.length) := by
  rw [sourceFile, declarations_tokens d.declarations hnesting h, hoffset]
  rfl

end Parse

end WorldDoc
