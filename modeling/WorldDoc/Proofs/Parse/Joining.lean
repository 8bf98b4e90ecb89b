import WorldDoc.Proofs.Parse.Acceptance
import WorldDoc.Proofs.Parse.Extent
import WorldDoc.Proofs.Parse.Moving

/-!
# Joined texts are parsed one after the other

A text without diagnostics may be followed, after a line feed, by any text whatever: the elements of
the document are those of the first text and, moved on, those of the second, and the diagnostics are
those of the second, moved on (`children_joined`, `diagnostics_joined`).

## Shape of the proof

The tokens of the first text are those of declarations, and declarations are read whatever stands
behind them (`declarations_tokens_append`). Their elements are the same over the whole text, for all
of them lie within the first one (`Placed.recut_eq`). Then the tokens of the second text are ahead,
further on, and nothing has been reported yet. The end of the last token taken is another one than
at the start of a text, but that makes no difference to an element that takes a token
(`declaration_withOffset`).
-/

namespace WorldDoc

/-! ## Trees over a longer text -/

namespace SyntaxTree

mutual

/-- The tree with the texts that its ranges cut out of another source. -/
def recut (source : SourceText) : SyntaxTree → SyntaxTree
  | token k r _ => token k r (source.slice r)
  | node k r _ cs => node k r (source.slice r) (recutAll source cs)

/-- Some trees with the texts that their ranges cut out of another source. -/
def recutAll (source : SourceText) : List SyntaxTree → List SyntaxTree
  | [] => []
  | t :: ts => t.recut source :: recutAll source ts

end

variable {source source' : SourceText}

/-- Recutting some trees is recutting each of them. -/
theorem recutAll_eq_map (ts : List SyntaxTree) : recutAll source ts = ts.map (recut source) := by
  induction ts with
  | nil => rfl
  | cons t ts ih => rw [recutAll, ih, List.map_cons]

/-- Recutting does not move a tree. -/
theorem range_recut (t : SyntaxTree) : (t.recut source).range = t.range := by
  cases t <;> rfl

/-- Recut elements span what they did. -/
theorem span_recut (offset : Nat) (ts : List SyntaxTree) :
    span offset (ts.map (recut source)) = span offset ts :=
  span_map (g := id) range_recut (fun _ _ => rfl) rfl ts

/-- A node over elements is recut with them. -/
@[simp] theorem recut_nodeOver (kind : NodeKind) (ts : List SyntaxTree) :
    (Derivation.nodeOver source kind ts).recut source' =
      Derivation.nodeOver source' kind (ts.map (recut source')) := by
  rw [Derivation.nodeOver, Derivation.nodeOver, branch, branch, recut, recutAll_eq_map, span_recut]

/-- A leaf over another source has the same token. -/
@[simp] theorem recut_leaf (t : Token) :
    (Derivation.leaf source t).recut source' = Derivation.leaf source' t := rfl

mutual

/-- Placed elements are the same over a text that begins alike. -/
theorem Placed.recut_eq (hslice : ∀ r, r.stop ≤ source.length → source'.slice r = source.slice r) :
    (t : SyntaxTree) → {offset : Nat} → offset ≤ source.length → Placed source offset t →
      t.recut source' = t
  | token _ r _, _, _, h => by rw [recut, hslice r h.2.1, ← h.2.2]
  | node kind r text elements, offset, hoffset, h => by
      have hwithin : r.stop ≤ source.length := h.stop_le hoffset
      obtain ⟨-, htext, -, hlaid⟩ := h
      rw [recut, hslice r hwithin, ← htext, Laid.recut_eq hslice elements hoffset hlaid]

/-- Elements that are laid out are the same over a text that begins alike. -/
theorem Laid.recut_eq (hslice : ∀ r, r.stop ≤ source.length → source'.slice r = source.slice r) :
    (ts : List SyntaxTree) → {offset : Nat} → offset ≤ source.length → Laid source offset ts →
      recutAll source' ts = ts
  | [], _, _, _ => rfl
  | t :: ts, _, hoffset, h => by
      rw [recutAll, Placed.recut_eq hslice t hoffset h.1,
        Laid.recut_eq hslice ts (Placed.endOf_le t h.1 hoffset) h.2]

end

end SyntaxTree

namespace Derivation

open SyntaxTree (recut)

variable (source source' : SourceText)

mutual

/-- The tree of a value over one source is recut to that over another. -/
theorem Value.recut_tree : (v : Value) → (v.tree source).recut source' = v.tree source'
  | .scalar token kind _ => by simp [Value.tree]
  | .list opening items closing => by simp [Value.tree, Items.recut_trees items]

/-- The trees of items over one source are recut to those over another. -/
theorem Items.recut_trees : (is : Items) → (is.trees source).map (recut source') = is.trees source'
  | .none => rfl
  | .last v => by simp [Items.trees, Value.recut_tree v]
  | .more v comma later => by simp [Items.trees, Value.recut_tree v, Items.recut_trees later]

end

/-- The trees of a field and its comma over one source are recut to those over another. -/
theorem recut_fieldTrees (f : Field × Option (Terminal .comma)) :
    (fieldTrees source f).map (recut source') = fieldTrees source' f := by
  obtain ⟨f, comma⟩ := f
  cases comma <;> simp [fieldTrees, Field.tree, Value.recut_tree]

/-- The tree of a declaration over one source is recut to that over another. -/
theorem recut_declaration (d : Declaration) :
    (d.tree source).recut source' = d.tree source' := by
  simp [Declaration.tree, List.map_flatMap, recut_fieldTrees]

end Derivation

namespace Parse

open State

variable {c : Context} {s : State}

/-! ## The end of the last token taken -/

namespace State

/-- The state with another end of the last token taken. -/
def withOffset (s : State) (offset : Nat) : State := { s with offset := offset }

variable (offset : Nat)

/-- A report does not depend on where the last token ended. -/
theorem report_withOffset (finding : Finding) (message : Option String) :
    (s.withOffset offset).report c finding message =
      (s.report c finding message).withOffset offset := by
  show (s.withOffset offset).record (finding.at (s.range c) message) =
    (s.record (finding.at (s.range c) message)).withOffset offset
  simp only [record, withOffset]
  split
  · rfl
  · split <;> rfl

/-- Once a token is taken it does not matter where the one before it ended. -/
theorem skip_withOffset (hahead : s.ahead ≠ []) (n : Nat) :
    (s.withOffset offset).skip (n + 1) = s.skip (n + 1) := by
  obtain ⟨t, later, hcons⟩ := List.exists_cons_of_ne_nil hahead
  simp [skip, withOffset, hcons, List.getLast?_cons]

/-- Where a token is ahead, taking some gives leaves. -/
theorem leaves_succ_ne_nil (hahead : s.ahead ≠ []) (n : Nat) : s.leaves c (n + 1) ≠ [] := by
  obtain ⟨t, later, hcons⟩ := List.exists_cons_of_ne_nil hahead
  simp [leaves, hcons]

end State

/-- A node with elements does not depend on where it was opened. -/
theorem branch_eq_of_ne_nil {ts : List SyntaxTree} (h : ts ≠ []) (source : SourceText)
    (kind : SyntaxKind) (offset offset' : Nat) :
    SyntaxTree.branch source kind offset ts = SyntaxTree.branch source kind offset' ts := by
  have hspan : SyntaxTree.span offset ts = SyntaxTree.span offset' ts := by
    rw [SyntaxTree.span, SyntaxTree.span, List.head?_eq_some_head h,
      List.getLast?_eq_some_getLast h]
  rw [SyntaxTree.branch, SyntaxTree.branch, hspan]

section WithOffset

variable (hahead : s.ahead ≠ []) (offset : Nat)
include hahead

/-- Skipping to a directive does not depend on where the last token ended. -/
theorem skipToDirective_withOffset :
    skipToDirective c true (s.withOffset offset) = skipToDirective c true s := by
  have hcount (n : Nat) : 1 + n = n + 1 := Nat.add_comm 1 n
  simp only [skipToDirective, wrap, if_true, hcount]
  refine Prod.ext ?_ (skip_withOffset offset hahead _)
  exact branch_eq_of_ne_nil (leaves_succ_ne_nil hahead _) _ _ _ _

/-- Reading stray tokens does not depend on where the last token ended. -/
theorem strayTokens_withOffset : strayTokens c (s.withOffset offset) = strayTokens c s := by
  rw [strayTokens, report_withOffset, skipToDirective_withOffset (by rwa [report_ahead])]
  rfl

/-- Reading a declaration does not depend on where the last token ended. -/
theorem declaration_withOffset : declaration c (s.withOffset offset) = declaration c s := by
  have hskip := skip_withOffset offset hahead 0
  have hleaves := leaves_succ_ne_nil (c := c) hahead 0
  have htext : (s.withOffset offset).text = s.text := rfl
  rw [declaration, declaration, htext]
  split
  · rw [report_withOffset, skipToDirective_withOffset (by rwa [report_ahead])]
  · simp only [Nat.zero_add] at hskip hleaves
    simp only [hskip]
    refine Prod.ext ?_ rfl
    exact branch_eq_of_ne_nil (List.append_ne_nil_of_left_ne_nil hleaves _) _ _ _ _

end WithOffset

/-- The elements of a document do not depend on the end of the last token before it. -/
theorem declarations_withOffset (s : State) (offset : Nat) :
    (declarations c (s.withOffset offset)).1 = (declarations c s).1 ∧
      (declarations c (s.withOffset offset)).2.reports = (declarations c s).2.reports := by
  have hkind : (s.withOffset offset).kind = s.kind := rfl
  by_cases hend : s.kind = .eof
  · rw [declarations_end hend, declarations_end (hkind.trans hend)]
    exact ⟨rfl, rfl⟩
  · have hahead : s.ahead ≠ [] := fun hnil => hend (by rw [State.kind, hnil])
    by_cases hdirective : s.kind = .directive
    · rw [declarations_directive hdirective, declarations_directive (hkind.trans hdirective),
        declaration_withOffset hahead]
      exact ⟨rfl, rfl⟩
    · rw [declarations_stray hdirective hend, declarations_stray (hkind ▸ hdirective) (hkind ▸ hend),
        strayTokens_withOffset hahead]
      exact ⟨rfl, rfl⟩

end Parse

/-! ## Joined texts -/

namespace SourceText

variable (a b : SourceText)

/-- A text and a line feed have one character more than the text. -/
theorem size_front : (a.chars ++ #['\n']).size = a.length + 1 := by
  simp [length]

/-- What lies within the first text is cut out of the joined one alike. -/
theorem slice_joined {r : TextRange} (h : r.stop ≤ a.length) : (a.joined b).slice r = a.slice r := by
  have hstart : r.start ≤ a.toList.length := Nat.le_trans r.start_le_stop h
  have hlength : r.stop - r.start ≤ (a.toList.drop r.start).length := by
    rw [List.length_drop, length_toList]
    exact Nat.sub_le_sub_right h _
  rw [slice_eq, slice_eq, toList_joined, List.drop_append_of_le_length hstart,
    List.take_append_of_le_length hlength]

end SourceText

namespace Diagnostic

/-- Diagnostics that are moved as far keep their order. -/
theorem precedes_moved (n : Nat) (d e : Diagnostic) :
    precedes (d.moved n) (e.moved n) = precedes d e := by
  rw [Bool.eq_iff_iff]
  simp only [precedes, Bool.or_eq_true, Bool.and_eq_true, decide_eq_true_eq, beq_iff_eq]
  simp [moved, TextRange.moved]

/-- Diagnostics further on are reported in the same order. -/
theorem collect_moved (n : Nat) (groups : List (List Diagnostic)) :
    collect (groups.map (List.map (moved n))) = (collect groups).map (moved n) := by
  rw [collect, collect, ← List.map_flatten,
    List.map_mergeSort fun d _ e _ => (precedes_moved n d e).symm]

end Diagnostic

namespace Document

variable {a : SourceText} {limit : NestingLimit}

/-- The elements of a text are the same at the start of a longer text. -/
theorem recut_children (limit : NestingLimit) (a b : SourceText) :
    (parse a limit).sourceFile.children.map (SyntaxTree.recut (a.joined b)) =
      (parse a limit).sourceFile.children := by
  have hfile : SyntaxTree.Placed a 0 (parse a limit).sourceFile :=
    (placed_root a limit).laid_children.1
  rw [← SyntaxTree.recutAll_eq_map]
  exact SyntaxTree.Laid.recut_eq (fun _ hwithin => a.slice_joined b hwithin) _ (Nat.zero_le _)
    hfile.laid_children

/-- The trees of the declarations in a text are the same over a longer text. -/
theorem trees_joined {d : Derivation.Document} (hnesting : d.Within limit.depth)
    (htokens : d.tokens = significantTokens a.toList) (b : SourceText) :
    d.declarations.map (Derivation.Declaration.tree (a.joined b)) =
      (parse a limit).sourceFile.children := by
  rw [← recut_children limit a b, sourceFile_eq_tree hnesting htokens]
  show _ = (d.declarations.map (Derivation.Declaration.tree a)).map _
  rw [List.map_map]
  exact List.map_congr_left fun e _ => (Derivation.recut_declaration a (a.joined b) e).symm

/-- Behind a text without diagnostics the declarations of another text are read as they are read by
themselves, further on. -/
theorem declarations_joined (hclean : (parse a limit).diagnostics = []) (b : SourceText) :
    let all := Parse.declarations ⟨a.joined b, limit⟩ (.initial (a.joined b).toList)
    let behind := Parse.declarations ⟨b, limit⟩ (.initial b.toList)
    all.1 = (parse a limit).sourceFile.children ++ behind.1.map (SyntaxTree.moved (a.length + 1)) ∧
      all.2.reports = behind.2.reports.map (Diagnostic.moved (a.length + 1)) := by
  obtain ⟨d, hnesting, htokens⟩ := exists_derivation hclean
  have hlexical := (diagnostics_eq_nil_iff.mp hclean).1
  have hahead : (Parse.State.initial (a.joined b).toList).ahead =
      d.declarations.flatMap Derivation.Declaration.tokens ++
        (significantTokens b.toList).map (Token.moved (a.length + 1)) := by
    rw [← Derivation.Document.tokens, htokens]
    exact significantTokens_joined hlexical b
  have hread := Parse.declarations_tokens_append (c := ⟨a.joined b, limit⟩) d.declarations hnesting
    hahead
  -- behind the first text parsing stands where it does at the start of the second one, further on
  obtain ⟨offset, hstate⟩ : ∃ offset, Parse.State.skip (.initial (a.joined b).toList)
      (d.declarations.flatMap Derivation.Declaration.tokens).length =
        (Parse.State.moved (a.length + 1) (.initial b.toList)).withOffset offset :=
    ⟨_, congrArg (Parse.State.mk · _ []) (Parse.skip_length_ahead hahead)⟩
  have hmoved : Parse.declarations ⟨a.joined b, limit⟩
      (.moved (a.chars ++ #['\n']).size (.initial b.toList)) = Prod.map _ _
        (Parse.declarations ⟨b, limit⟩ (.initial b.toList)) :=
    Parse.declarations_moved (c := ⟨b, limit⟩) (.initial b.toList)
  rw [SourceText.size_front] at hmoved
  obtain ⟨htree, hreports⟩ := Parse.declarations_withOffset (c := ⟨a.joined b, limit⟩)
    (Parse.State.moved (a.length + 1) (.initial b.toList)) offset
  rw [hstate] at hread
  refine ⟨?_, ?_⟩
  · rw [hread, htree, hmoved, trees_joined hnesting htokens b]
    rfl
  · rw [hread, hreports, hmoved]
    rfl

/-- The elements of a text without diagnostics are followed by those of the other text. -/
theorem children_joined (hclean : (parse a limit).diagnostics = []) (b : SourceText) :
    (parse (a.joined b) limit).sourceFile.children =
      (parse a limit).sourceFile.children ++
        (parse b limit).sourceFile.children.map (SyntaxTree.moved (a.length + 1)) :=
  (declarations_joined hclean b).1

/-- Only in the other text something may be wrong. -/
theorem diagnostics_joined (hclean : (parse a limit).diagnostics = []) (b : SourceText) :
    (parse (a.joined b) limit).diagnostics =
      (parse b limit).diagnostics.map (Diagnostic.moved (a.length + 1)) := by
  have hlexical := lexicalDiagnostics_joined (diagnostics_eq_nil_iff.mp hclean).1 b
  have hreports : (Parse.sourceFile ⟨a.joined b, limit⟩ (.initial (a.joined b).toList)).2.reports =
      (Parse.sourceFile ⟨b, limit⟩ (.initial b.toList)).2.reports.map
        (Diagnostic.moved (a.length + 1)) := (declarations_joined hclean b).2
  show Diagnostic.collect [_, _] = _
  rw [hlexical, hreports, ← List.map_reverse]
  exact Diagnostic.collect_moved (a.length + 1) [_, _]

end Document

end WorldDoc
