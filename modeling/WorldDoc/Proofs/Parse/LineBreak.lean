import WorldDoc.Proofs.Lexical.LineBreak
import WorldDoc.Proofs.Parse.Diagnostics
import WorldDoc.Proofs.Parse.Extent
import WorldDoc.Proofs.Parse.Moving
import WorldDoc.Proofs.Parse.Parallel

/-!
# Line breaks make no difference to the parser

A text in which every carriage return is followed by a line feed is parsed like the same text with
its line breaks as line feeds (`SourceText.normalized`). Either tree is the other one without the
carriage returns in its texts and ranges (`Document.root_normalized`), and so are the diagnostics,
in the same order (`Document.diagnostics_normalized`), each at the same line and column
(`Document.lineCol_normalized`).

## Shape of the proof

The tokens correspond (`tokens_stripped`), so both texts are parsed in parallel
(`agree_sourceFile`): the trees have one shape, and the reports stand at corresponding tokens. A
tree is determined by its shape and its tokens (`Placed.eq_stripped`). Diagnostics keep their order
because they all stand at ranges that cut no line break in two (`TextRange.Whole`), among which
offsets without carriage returns are ordered as before.
-/

namespace WorldDoc

open LineBreak

/-! ## Texts and ranges -/

/-- The text with its line breaks as line feeds. -/
def SourceText.normalized (t : SourceText) : SourceText :=
  .ofString (String.ofList (normalize t.toList))

section Text

variable {source : SourceText} {text : List Char} {r s : TextRange}

/-- Line breaks as line feeds leave a text without its carriage returns. -/
theorem SourceText.toList_normalized (h : Paired source.toList) :
    source.normalized.toList = withoutReturns source.toList := by
  rw [normalized, toList_ofString, String.toList_ofList, normalize_eq h]

/-- What a range cuts out is cut out by the range without carriage returns, but for these. -/
theorem SourceText.slice_normalized (h : Paired source.toList) (r : TextRange) :
    source.normalized.slice (r.stripped source.toList) =
      String.ofList (withoutReturns (source.slice r).toList) := by
  have hsplit : withoutReturns (source.toList.take r.stop) =
      withoutReturns (source.toList.take r.start) ++
        withoutReturns ((source.toList.drop r.start).take (r.stop - r.start)) := by
    rw [← withoutReturns_append, ← List.take_add, Nat.add_sub_cancel' r.start_le_stop]
  rw [slice_eq, slice_eq, toList_normalized h, ← List.drop_take]
  show String.ofList (((withoutReturns source.toList).take (offsetWithout source.toList r.stop)).drop
    (offsetWithout source.toList r.start)) = _
  rw [take_offsetWithout, hsplit, offsetWithout, List.drop_left, String.toList_ofList]

/-- Ranges without carriage returns cover what the ranges do. -/
theorem cover_stripped (text : List Char) (r s : TextRange) :
    (r.stripped text).cover (s.stripped text) = (r.cover s).stripped text := by
  have hmono : Monotone (offsetWithout text) := fun _ _ => offsetWithout_mono
  exact TextRange.ext hmono.map_min.symm hmono.map_max.symm

/-- The range lies in the text and neither starts nor stops within a line break. -/
structure TextRange.Whole (text : List Char) (r : TextRange) : Prop where
  stop_le : r.stop ≤ text.length
  start : Paired (text.take r.start)
  stop : Paired (text.take r.stop)

/-- A range that cuts no line break starts within the text. -/
theorem TextRange.Whole.start_le (h : r.Whole text) : r.start ≤ text.length :=
  Nat.le_trans r.start_le_stop h.stop_le

/-- The range of a token cuts no line break in two. -/
theorem whole_of_mem_tokens (h : Paired text) {t : Token} (ht : t ∈ tokens text) :
    t.range.Whole text :=
  ⟨stop_le_length_of_mem_tokens ht, paired_take_start h ht, paired_take_stop h ht⟩

/-- Nor does that of the end of the file. -/
theorem whole_of_mem_tokensToEnd (h : Paired source.toList) {t : Token}
    (ht : t ∈ tokensToEnd source) : t.range.Whole source.toList := by
  rcases List.mem_append.mp ht with ht | ht
  · exact whole_of_mem_tokens h (List.mem_filter.mp ht).1
  · obtain rfl := List.mem_singleton.mp ht
    have hend : Paired (source.toList.take source.length) := by
      rwa [← SourceText.length_toList, List.take_length]
    exact ⟨Nat.le_refl _, hend, hend⟩

end Text

/-! ## Trees -/

namespace SyntaxTree

mutual

/-- The tree without carriage returns in its texts and ranges. -/
def stripped (text : List Char) : SyntaxTree → SyntaxTree
  | token k r t => token k (r.stripped text) (String.ofList (withoutReturns t.toList))
  | node k r t cs =>
    node k (r.stripped text) (String.ofList (withoutReturns t.toList)) (strippedAll text cs)

/-- Some trees without carriage returns in their texts and ranges. -/
def strippedAll (text : List Char) : List SyntaxTree → List SyntaxTree
  | [] => []
  | t :: ts => t.stripped text :: strippedAll text ts

end

/-- The token of a tree without carriage returns. -/
def strippedLeaf (text : List Char) (l : Leaf) : Leaf :=
  (l.1, l.2.1.stripped text, String.ofList (withoutReturns l.2.2.toList))

variable {text : List Char}

/-- To strip some trees is to strip each of them. -/
theorem strippedAll_eq_map (ts : List SyntaxTree) : strippedAll text ts = ts.map (stripped text) := by
  induction ts with
  | nil => rfl
  | cons t ts ih => rw [strippedAll, ih, List.map_cons]

/-- The range of a tree without carriage returns is its range without them. -/
theorem range_stripped (t : SyntaxTree) : (t.stripped text).range = t.range.stripped text := by
  cases t <;> rfl

/-- Elements without carriage returns span what they did, without them. -/
theorem span_stripped (offset : Nat) (ts : List SyntaxTree) :
    span (offsetWithout text offset) (strippedAll text ts) = (span offset ts).stripped text := by
  rw [strippedAll_eq_map]
  exact span_map range_stripped (cover_stripped text) rfl ts

/-- Leaves without carriage returns end where they did, without them. -/
theorem endOf_stripped (offset : Nat) (ls : List Leaf) :
    endOf (offsetWithout text offset) (ls.map (strippedLeaf text)) =
      offsetWithout text (endOf offset ls) := by
  rw [endOf, endOf, List.getLast?_map]
  cases ls.getLast? <;> rfl

mutual

/-- A tree and its gist have as many leaves, whatever becomes of the texts. -/
theorem length_leaves_gist (f : List Char → List Char) :
    (t : SyntaxTree) → (t.retexted f).gist.leaves.length = t.leaves.length
  | token _ _ _ => rfl
  | node _ _ _ cs => length_leavesOf_gists f cs

/-- Elements and their gists have as many leaves, whatever becomes of the texts. -/
theorem length_leavesOf_gists (f : List Char → List Char) :
    (ts : List SyntaxTree) → (leavesOf (gists (retextedAll f ts))).length = (leavesOf ts).length
  | [] => rfl
  | t :: ts => by
      rw [retextedAll, gists, leavesOf, leavesOf, List.length_append, List.length_append,
        length_leaves_gist f t, length_leavesOf_gists f ts]

end

variable {source : SourceText} {f : List Char → List Char}

/-- Trees of one gist have as many leaves. -/
theorem length_leaves_eq {t u : SyntaxTree} (h : (t.retexted f).gist = u.gist) :
    t.leaves.length = u.leaves.length := by
  rw [← length_leaves_gist f t, h, ← length_leaves_gist id u, retexted_id]

mutual

/-- Where a text is and where its line breaks are line feeds, a tree of the same shape over the same
tokens is the same tree, but for carriage returns. -/
theorem Placed.eq_stripped (h : Paired source.toList) : (t u : SyntaxTree) → {offset : Nat} →
    Placed source offset t → Placed source.normalized (offsetWithout source.toList offset) u →
    (t.retexted f).gist = u.gist → u.leaves = t.leaves.map (strippedLeaf source.toList) →
      u = t.stripped source.toList
  | token _ _ _, token _ _ _, _, _, _, _, hleaves => by
      obtain ⟨rfl, hplace⟩ := Prod.mk.inj (List.cons.inj hleaves).1
      obtain ⟨rfl, rfl⟩ := Prod.mk.inj hplace
      rfl
  | token _ _ _, node _ _ _ _, _, _, _, hgist, _ => nomatch hgist
  | node _ _ _ _, token _ _ _, _, _, _, hgist, _ => nomatch hgist
  | node k r t cs, node k' r' t' cs', offset, ht, hu, hgist, hleaves => by
      obtain ⟨hrange, htext, -, hlaid⟩ := ht
      obtain ⟨hrange', htext', -, hlaid'⟩ := hu
      rw [retexted, gist, gist] at hgist
      obtain ⟨rfl, -, -, hgists⟩ := SyntaxTree.node.inj hgist
      have hchildren := Laid.eq_stripped h cs cs' hlaid hlaid' hgists hleaves
      rw [hchildren, span_stripped, ← hrange] at hrange'
      rw [hrange', SourceText.slice_normalized h, ← htext] at htext'
      rw [stripped, hchildren, hrange', htext']

/-- Elements of the rewritten text that correspond to those of the text are those without carriage
returns. -/
theorem Laid.eq_stripped (h : Paired source.toList) : (ts us : List SyntaxTree) →
    {offset : Nat} → Laid source offset ts →
    Laid source.normalized (offsetWithout source.toList offset) us →
    gists (retextedAll f ts) = gists us →
    leavesOf us = (leavesOf ts).map (strippedLeaf source.toList) →
      us = strippedAll source.toList ts
  | [], [], _, _, _, _, _ => rfl
  | [], _ :: _, _, _, _, hgist, _ => nomatch hgist
  | _ :: _, [], _, _, _, hgist, _ => nomatch hgist
  | t :: ts, u :: us, offset, hlaid, hlaid', hgists, hleaves => by
      obtain ⟨hgist, hlater⟩ := List.cons.inj hgists
      rw [leavesOf, leavesOf, List.map_append] at hleaves
      have hlength : u.leaves.length = (t.leaves.map (strippedLeaf source.toList)).length := by
        rw [List.length_map, length_leaves_eq hgist]
      obtain ⟨hfirst, hrest⟩ := List.append_inj hleaves hlength
      have hplaced := hlaid'.2
      rw [hfirst, endOf_stripped] at hplaced
      rw [strippedAll, ← Placed.eq_stripped h t u hlaid.1 hlaid'.1 hgist hfirst,
        ← Laid.eq_stripped h ts us hlaid.2 hplaced hlater hrest]

end

end SyntaxTree

/-! ## Reports -/

section Parse

variable {source : SourceText}

/-- The significant tokens of both texts correspond. -/
theorem significantTokens_normalized (h : Paired source.toList) :
    significantTokens source.normalized.toList =
      (significantTokens source.toList).map (Token.stripped source.toList) := by
  rw [SourceText.toList_normalized h, significantTokens_stripped h]

namespace Parse

/-- Both texts have the same tokens, those of the first with their line breaks as line feeds. -/
theorem relaid_normalized (h : LineBreak.Paired source.toList) (limit : NestingLimit) :
    Relaid normalize ⟨source, limit⟩ ⟨source.normalized, limit⟩ where
  limit := rfl
  tokens := by
    show _ = (significantTokens source.normalized.toList).map Token.key
    rw [significantTokens_normalized h, List.map_map]
    refine List.map_congr_left fun t ht => Prod.ext rfl ?_
    exact normalize_eq (paired_of_mem_tokens h (List.mem_filter.mp ht).1)
  directive t ht hkind := by
    have hmem := (List.mem_filter.mp ht).1
    rw [normalize_eq (paired_of_mem_tokens h hmem)]
    exact text_stripped hmem (by rw [hkind]; decide) (by rw [hkind]; decide)

/-- The range at the token of a number in the rewritten text is that in the text without carriage
returns. -/
theorem rangeAt_normalized (h : LineBreak.Paired source.toList) (limit : NestingLimit) (n : Nat) :
    rangeAt ⟨source.normalized, limit⟩ ((significantTokens source.normalized.toList).drop n) =
      (rangeAt ⟨source, limit⟩ ((significantTokens source.toList).drop n)).stripped
        source.toList := by
  rw [significantTokens_normalized h, ← List.map_drop]
  cases hahead : (significantTokens source.toList).drop n with
  | nil =>
    have hlength : source.normalized.length = offsetWithout source.toList source.length := by
      rw [← SourceText.length_toList, SourceText.toList_normalized h, ← offsetWithout_length]
      rfl
    exact TextRange.ext hlength hlength
  | cons t later =>
    have ht : t ∈ significantTokens source.toList :=
      List.mem_of_mem_drop (hahead ▸ List.mem_cons_self)
    exact WorldDoc.range_stripped (List.mem_filter.mp ht).1

end Parse

namespace Document

variable {limit : NestingLimit}

/-- Both texts are parsed side by side. -/
theorem agree_normalized (h : Paired source.toList) (limit : NestingLimit) :
    Parse.Agree normalize ⟨source, limit⟩ ⟨source.normalized, limit⟩
      [(parse source limit).sourceFile]
      (Parse.sourceFile ⟨source, limit⟩ (.initial source.toList)).2
      [(parse source.normalized limit).sourceFile]
      (Parse.sourceFile ⟨source.normalized, limit⟩ (.initial source.normalized.toList)).2 :=
  Parse.agree_sourceFile (Parse.relaid_normalized h limit) (Parse.relaid_normalized h limit).initial

/-- The trees have one gist, once line breaks in the first one are line feeds. -/
theorem gist_normalized (h : Paired source.toList) (limit : NestingLimit) :
    ((parse source limit).root.retexted normalize).gist = (parse source.normalized limit).root.gist := by
  have hgists := (agree_normalized h limit).gists
  have hkind : ¬ (SyntaxKind.node .root).isAtomic = true := by decide
  rw [root, root, SyntaxTree.branch, SyntaxTree.branch, SyntaxTree.retexted, SyntaxTree.gist,
    SyntaxTree.gist, hgists, if_neg hkind, if_neg hkind]

/-- The tree of the text with its line breaks as line feeds is the same but for carriage returns. -/
theorem root_normalized (h : Paired source.toList) (limit : NestingLimit) :
    (parse source.normalized limit).root =
      (parse source limit).root.stripped source.toList := by
  refine SyntaxTree.Placed.eq_stripped h _ _ (placed_root source limit)
    (placed_root source.normalized limit) (gist_normalized h limit) ?_
  rw [Parse.leaves_root, Parse.leaves_root, significantTokens_normalized h, List.map_map,
    List.map_map]
  refine List.map_congr_left fun t ht => ?_
  have hrange := WorldDoc.range_stripped (List.mem_filter.mp ht).1
  refine Prod.ext rfl (Prod.ext hrange ?_)
  show String.ofList (withoutReturns t.text) =
    String.ofList (withoutReturns (String.ofList t.text).toList)
  rw [String.toList_ofList]

/-- The reports of the parser correspond. -/
theorem reports_normalized (h : Paired source.toList) (limit : NestingLimit) :
    reports source.normalized limit =
      (reports source limit).map (Diagnostic.stripped source.toList) := by
  obtain ⟨pairs, hfst, hsnd, hpairs⟩ := (agree_normalized h limit).states.reports
  rw [reports, reports, hfst, hsnd, List.map_reverse, List.map_map]
  refine congrArg List.reverse (List.map_congr_left fun pair hpair => ?_)
  obtain ⟨hsame, n, -, -, hrange₁, hrange₂⟩ := hpairs pair hpair
  have hrange : pair.2.range = pair.1.range.stripped source.toList := by
    rw [hrange₁, hrange₂, Parse.rangeAt_normalized h limit n]
  rw [Function.comp_apply, Diagnostic.stripped, ← hrange, hsame]

end Document

end Parse

/-! ## Diagnostics -/

namespace Diagnostic

variable {text : List Char} {d e : Diagnostic}

/-- Diagnostics that cut no line break keep their order. -/
theorem precedes_stripped (hd : d.range.Whole text) (he : e.range.Whole text) :
    precedes (d.stripped text) (e.stripped text) = precedes d e := by
  have hstart := offsetWithout_lt_iff (m := d.range.start) he.start_le he.start
  have hstop := offsetWithout_lt_iff (m := d.range.stop) he.stop_le he.stop
  have hstartEq := offsetWithout_eq_iff hd.start_le he.start_le hd.start he.start
  have hstopEq := offsetWithout_eq_iff hd.stop_le he.stop_le hd.stop he.stop
  rw [Bool.eq_iff_iff]
  simp only [precedes, Bool.or_eq_true, Bool.and_eq_true, decide_eq_true_eq, beq_iff_eq]
  simp only [stripped, TextRange.stripped, hstart, hstop, hstartEq, hstopEq]

/-- Diagnostics without carriage returns are collected in the same order. -/
theorem collect_stripped (groups : List (List Diagnostic))
    (h : ∀ d ∈ groups.flatten, d.range.Whole text) :
    collect (groups.map (List.map (stripped text))) = (collect groups).map (stripped text) := by
  rw [collect, collect, ← List.map_flatten,
    List.map_mergeSort fun d hd e he => (precedes_stripped (h d hd) (h e he)).symm]

end Diagnostic

namespace Document

variable {source : SourceText} {limit : NestingLimit}

/-- Nothing is ever found wrong in the middle of a line break. -/
theorem whole_of_mem_diagnostics (h : Paired source.toList) {d : Diagnostic}
    (hd : d ∈ lexicalDiagnostics source.toList ++ reports source limit) :
    d.range.Whole source.toList := by
  rcases List.mem_append.mp hd with hlexical | hreport
  · obtain ⟨t, ht, hrange⟩ := List.mem_map.mp
      ((sublist_lexicalDiagnostics source.toList).subset (List.mem_map_of_mem hlexical))
    exact hrange ▸ whole_of_mem_tokens h ht
  · obtain ⟨t, ht, hrange⟩ := List.mem_map.mp
      ((sublist_reports source limit).subset (List.mem_map_of_mem hreport))
    exact hrange ▸ whole_of_mem_tokensToEnd h ht

/-- The diagnostics are the same in the same order, but for carriage returns in their ranges. -/
theorem diagnostics_normalized (h : Paired source.toList) (limit : NestingLimit) :
    (parse source.normalized limit).diagnostics =
      (parse source limit).diagnostics.map (Diagnostic.stripped source.toList) := by
  show Diagnostic.collect [lexicalDiagnostics source.normalized.toList,
    reports source.normalized limit] = _
  rw [SourceText.toList_normalized h, lexicalDiagnostics_stripped h, reports_normalized h]
  refine Diagnostic.collect_stripped [lexicalDiagnostics source.toList, reports source limit]
    fun d hd => ?_
  rw [List.flatten_cons, List.flatten_singleton] at hd
  exact whole_of_mem_diagnostics h hd

/-- A diagnostic keeps its line and column. -/
theorem lineCol_normalized (h : Paired source.toList) {d : Diagnostic}
    (hd : d ∈ (parse source limit).diagnostics) :
    (LineIndex.ofText source.normalized.toList).lineCol (d.stripped source.toList).range.start =
      (LineIndex.ofText source.toList).lineCol d.range.start := by
  have hwhole := whole_of_mem_diagnostics h ((diagnostics_perm source limit).subset hd)
  rw [SourceText.toList_normalized h]
  exact lineCol_offsetWithout hwhole.start_le hwhole.start

end Document

end WorldDoc
