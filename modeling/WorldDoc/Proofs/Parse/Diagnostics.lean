import Mathlib.Data.List.Sort
import Mathlib.Data.Prod.Lex
import Mathlib.Data.String.Basic
import Mathlib.Order.Bounds.Basic
import WorldDoc.Failure
import WorldDoc.Proofs.Parse.Reporting

/-!
# The diagnostics of a text

What is wrong with a text is found by the lexer and by the parser, each of which goes through the
tokens from the first to the last and says at most one thing about each. The diagnostics of a text
are both lists merged: none is lost, none is added, and they come in the order of their places. The
errors that are raised of a text carry all of them and point to the foremost one
(`Document.diagnostics_merged`).

## Shape of the proof

The order of a report is the lexicographic order of the keys of its entries (`precedes_iff`), which
is linear, so merge sort does what it should. That reports stand at tokens, at most one at each, is
said by lists of ranges: those of the reports are what is left of those of the tokens if some are
left out. For the lexer this can be read off its definition. For the parser it follows as every
report stands at some token (`Parse.Settled`) and both lists are in the order of their starts.
-/

namespace WorldDoc

/-! ## The order of a report -/

namespace Diagnostic

/-- What diagnostics are ordered by: the start, the end, the code and the message. -/
def sortKey (d : Diagnostic) : ℕ ×ₗ ℕ ×ₗ String ×ₗ String :=
  toLex (d.range.start, toLex (d.range.stop, toLex (d.code, d.message)))

/-- One diagnostic precedes another exactly if its key does. -/
theorem precedes_iff {a b : Diagnostic} : a.precedes b = true ↔ a.sortKey ≤ b.sortKey := by
  simp only [precedes, sortKey, Prod.Lex.toLex_le_toLex, Bool.or_eq_true, Bool.and_eq_true,
    decide_eq_true_eq, beq_iff_eq]

/-- What is sooner in the order starts no later. -/
theorem start_le_of_sortKey_le {a b : Diagnostic} (h : a.sortKey ≤ b.sortKey) :
    a.range.start ≤ b.range.start :=
  Prod.Lex.monotone_fst _ _ h

/-- All diagnostics of the groups are collected, and none is lost. -/
theorem collect_perm (groups : List (List Diagnostic)) :
    (collect groups).Perm groups.flatten :=
  List.mergeSort_perm groups.flatten precedes

/-- What is collected is in the order of the keys. -/
theorem collect_pairwise (groups : List (List Diagnostic)) :
    (collect groups).Pairwise fun d later => d.sortKey ≤ later.sortKey := by
  have hsorted : (collect groups).Pairwise fun d later => d.precedes later = true := by
    refine List.pairwise_mergeSort (fun a b c hab hbc => ?_) (fun a b => ?_) groups.flatten
    · exact precedes_iff.mpr (le_trans (precedes_iff.mp hab) (precedes_iff.mp hbc))
    · rw [Bool.or_eq_true, precedes_iff, precedes_iff]
      exact le_total _ _
  exact hsorted.imp precedes_iff.mp

end Diagnostic

/-! ## Places -/

/-- Ranges come in the order of their starts, and no two start at one place. -/
def InOrder (ranges : List TextRange) : Prop := ranges.Pairwise fun r later => r.start < later.start

/-- Ranges in order are what is left of others in order if all of them are among these. -/
theorem InOrder.sublist_of_subset {some all : List TextRange} (hsome : InOrder some)
    (hall : InOrder all) (hsubset : some ⊆ all) : some.Sublist all := by
  -- no two ranges start one before the other in both directions, so each list has but one order
  have : Std.Antisymm fun r s : TextRange => r.start < s.start :=
    ⟨fun r s hrs hsr => absurd hrs (Nat.lt_asymm hsr)⟩
  have hnodup : some.Nodup := hsome.imp fun hlt heq => Nat.ne_of_lt hlt (congrArg _ heq)
  exact List.sublist_of_subperm_of_pairwise (List.subperm_of_subset hnodup hsubset) hsome hall

/-- The tokens of a text are in order. -/
theorem inOrder_tokens (text : List Char) : InOrder ((tokens text).map Token.range) :=
  List.pairwise_map.mpr (pairwise_start_tokens text)

/-- So they are with the end of the file. -/
theorem inOrder_tokensToEnd (source : SourceText) :
    InOrder ((tokensToEnd source).map Token.range) := by
  rw [tokensToEnd, List.map_append]
  refine List.pairwise_append.mpr ⟨List.pairwise_map.mpr (Parse.pairwise_start source.toList),
    List.pairwise_singleton _ _, fun r hr e he => ?_⟩
  obtain ⟨t, ht, rfl⟩ := List.mem_map.mp hr
  obtain rfl := List.mem_singleton.mp he
  have hmem : t ∈ tokens source.toList := (List.mem_filter.mp ht).1
  exact Nat.lt_of_lt_of_le (start_lt_stop_of_mem_tokens hmem) (stop_le_length_of_mem_tokens hmem)

/-- The lexer says one thing about each token that is at fault, and nothing about the others. -/
theorem map_range_filterMap_diagnostic? (ts : List Token) :
    (ts.filterMap Token.diagnostic?).map Diagnostic.range =
      (ts.filter fun t => t.fault.isSome).map Token.range := by
  induction ts with
  | nil => rfl
  | cons t later ih =>
    cases hfault : t.fault with
    | none =>
      rw [List.filterMap_cons_none (by rw [Token.diagnostic?, hfault]; rfl),
        List.filter_cons_of_neg (by rw [hfault]; decide), ih]
    | some fault =>
      obtain ⟨d, hd, hrange⟩ : ∃ d, t.diagnostic? = some d ∧ d.range = t.range := by
        rw [Token.diagnostic?, hfault]
        cases fault <;> exact ⟨_, rfl, rfl⟩
      rw [List.filterMap_cons_some hd, List.filter_cons_of_pos (by rw [hfault]; rfl),
        List.map_cons, List.map_cons, ih, hrange]

/-- The lexer reports at tokens of the text, in their order and at most once at each. -/
theorem sublist_lexicalDiagnostics (text : List Char) :
    ((lexicalDiagnostics text).map Diagnostic.range).Sublist ((tokens text).map Token.range) := by
  rw [lexicalDiagnostics, map_range_filterMap_diagnostic?]
  exact List.filter_sublist.map Token.range

/-- The reports of the lexer are in order. -/
theorem inOrder_lexicalDiagnostics (text : List Char) :
    InOrder ((lexicalDiagnostics text).map Diagnostic.range) :=
  List.Pairwise.sublist (sublist_lexicalDiagnostics text) (inOrder_tokens text)

/-- All that the lexer reports are errors. -/
theorem severity_of_mem_lexicalDiagnostics {text : List Char} {d : Diagnostic}
    (h : d ∈ lexicalDiagnostics text) : d.severity = .error := by
  obtain ⟨t, -, hd⟩ := List.mem_filterMap.mp h
  obtain ⟨fault, -, rfl⟩ := Option.map_eq_some_iff.mp hd
  cases fault <;> rfl

/-- Every report stands at a token that the parser sees, or at the end of the file. -/
theorem Parse.Settled.exists_token {c : Context} {s : State} (h : Settled c s) {d : Diagnostic}
    (hd : d ∈ s.reports) : ∃ t ∈ tokensToEnd c.source, t.range = d.range := by
  obtain ⟨passed, htext, hrange⟩ := h.reports d hd
  obtain ⟨t, ht, hplace⟩ := getElem?_tokensToEnd (c := c)
    (Nat.sub_le (significantTokens c.source.toList).length (passed ++ s.ahead).length)
  rw [← List.suffix_iff_eq_drop.mp htext] at hplace
  exact ⟨t, List.mem_of_getElem? ht, hplace.trans hrange.symm⟩

namespace Document

variable (source : SourceText) (limit : NestingLimit)

/-! ## Both lists, and their merger -/

/-- The reports of the parser are in order. -/
theorem inOrder_reports : InOrder ((reports source limit).map Diagnostic.range) :=
  List.pairwise_map.mpr (reports_pairwise source limit)

/-- The parser reports at tokens, in their order and at most once at each. -/
theorem sublist_reports :
    ((reports source limit).map Diagnostic.range).Sublist ((tokensToEnd source).map Token.range) := by
  refine (inOrder_reports source limit).sublist_of_subset (inOrder_tokensToEnd source)
    fun r hr => ?_
  obtain ⟨d, hd, rfl⟩ := List.mem_map.mp hr
  have hsettled := (Parse.reads_sourceFile _).settled (Parse.settled_initial source limit)
  obtain ⟨t, ht, hrange⟩ := hsettled.exists_token (List.mem_reverse.mp hd)
  exact List.mem_map.mpr ⟨t, ht, hrange⟩

/-- The diagnostics of a text are those of the lexer and those of the parser, none of them lost. -/
theorem diagnostics_perm : (parse source limit).diagnostics.Perm
    (lexicalDiagnostics source.toList ++ reports source limit) := by
  have hperm := Diagnostic.collect_perm [lexicalDiagnostics source.toList, reports source limit]
  rwa [List.flatten_cons, List.flatten_singleton] at hperm

/-- All that is ever wrong with a text is an error. -/
theorem severity_of_mem_diagnostics {d : Diagnostic} (h : d ∈ (parse source limit).diagnostics) :
    d.severity = .error := by
  rcases mem_diagnostics.mp h with hlexical | hreport
  · exact severity_of_mem_lexicalDiagnostics hlexical
  · have hinitial : ∀ d ∈ (Parse.State.initial source.toList).reports, d.severity = .error :=
      fun _ hd => absurd hd List.not_mem_nil
    exact (Parse.reads_sourceFile _).errors hinitial d (List.mem_reverse.mp hreport)

/-- A text has errors exactly if it has diagnostics. -/
theorem hasErrors_iff : (parse source limit).hasErrors = true ↔
    (parse source limit).diagnostics ≠ [] := by
  rw [hasErrors, Diagnostic.anyError, List.any_eq_true]
  constructor
  · rintro ⟨d, hd, -⟩
    exact List.ne_nil_of_mem hd
  · intro hne
    obtain ⟨d, hd⟩ := List.exists_mem_of_ne_nil _ hne
    exact ⟨d, hd, beq_iff_eq.mpr (severity_of_mem_diagnostics source limit hd)⟩

/-- The foremost place where something is wrong is that of the first diagnostic. -/
theorem isLeast_start {first : Diagnostic} {others : List Diagnostic}
    (h : (parse source limit).diagnostics = first :: others) :
    IsLeast {n | ∃ d ∈ lexicalDiagnostics source.toList ++ reports source limit,
      d.range.start = n} first.range.start := by
  have hperm := diagnostics_perm source limit
  have hsorted : (parse source limit).diagnostics.Pairwise fun d later =>
      d.sortKey ≤ later.sortKey := Diagnostic.collect_pairwise _
  rw [h] at hperm hsorted
  refine ⟨⟨first, hperm.subset List.mem_cons_self, rfl⟩, ?_⟩
  rintro n ⟨d, hd, rfl⟩
  rcases List.mem_cons.mp (hperm.symm.subset hd) with rfl | hd
  · exact Nat.le_refl _
  · exact Diagnostic.start_le_of_sortKey_le (List.rel_of_pairwise_cons hsorted hd)

/-- The errors that are raised of a text, by their diagnostics and the position they name. -/
theorem outline_eq_error_iff (errors : SyntaxErrors) :
    (parse source limit).outline = .error errors ↔
      errors.diagnostics = (parse source limit).diagnostics ∧ ∃ start,
        IsLeast {n | ∃ d ∈ lexicalDiagnostics source.toList ++ reports source limit,
          d.range.start = n} start ∧
        errors.position = (LineIndex.ofText source.toList).lineCol start := by
  rw [outline]
  cases h : (parse source limit).diagnostics with
  | nil =>
    constructor
    · intro houtline
      contradiction
    · rintro ⟨hnil, -⟩
      contradiction
  | cons first others =>
    have hleast := isLeast_start source limit h
    constructor
    · intro houtline
      obtain rfl := Except.error.inj houtline
      exact ⟨rfl, first.range.start, hleast, rfl⟩
    · obtain ⟨first', others', position⟩ := errors
      rintro ⟨hdiagnostics, start, hstart, hposition⟩
      obtain ⟨rfl, rfl⟩ := List.cons.inj hdiagnostics
      obtain rfl := hstart.unique hleast
      exact congrArg (fun p => Except.error (SyntaxErrors.mk first' others' p)) hposition.symm

/-- A text has no outline exactly if it has diagnostics. -/
theorem raises_iff : (∃ errors, (parse source limit).outline = .error errors) ↔
    (parse source limit).diagnostics ≠ [] := by
  rw [outline]
  cases (parse source limit).diagnostics with
  | nil => simp [SyntaxErrors.ofDiagnostics?]
  | cons first others => simp [SyntaxErrors.ofDiagnostics?]

/-- What the parser reports stands at tokens that it sees or at the end of the file, and what the
lexer reports at tokens, either list in order and with no two entries at one place. The diagnostics
of a text are those of both lists, in the order of a report. Errors are raised exactly if there are
any diagnostics, and then they carry all of them, have the range of the first one, and name the
position of the foremost start of all that the lexer and the parser report. -/
theorem diagnostics_merged :
    (InOrder ((reports source limit).map Diagnostic.range) ∧
      ((reports source limit).map Diagnostic.range).Sublist
        ((tokensToEnd source).map Token.range)) ∧
    (InOrder ((lexicalDiagnostics source.toList).map Diagnostic.range) ∧
      ((lexicalDiagnostics source.toList).map Diagnostic.range).Sublist
        ((tokens source.toList).map Token.range)) ∧
    (parse source limit).diagnostics.Perm
      (lexicalDiagnostics source.toList ++ reports source limit) ∧
    (parse source limit).diagnostics.Pairwise (fun d later => d.sortKey ≤ later.sortKey) ∧
    ((parse source limit).hasErrors = true ↔ (parse source limit).diagnostics ≠ []) ∧
    ((∃ errors, (parse source limit).outline = .error errors) ↔
      (parse source limit).diagnostics ≠ []) ∧
    ∀ errors, (parse source limit).outline = .error errors ↔
      errors.diagnostics = (parse source limit).diagnostics ∧
      (Failure.syntaxErrors errors).range =
        (parse source limit).diagnostics.head?.map Diagnostic.range ∧
      ∃ start, IsLeast {n | ∃ d ∈ lexicalDiagnostics source.toList ++ reports source limit,
          d.range.start = n} start ∧
        errors.position = (LineIndex.ofText source.toList).lineCol start := by
  refine ⟨⟨inOrder_reports source limit, sublist_reports source limit⟩,
    ⟨inOrder_lexicalDiagnostics source.toList, sublist_lexicalDiagnostics source.toList⟩,
    diagnostics_perm source limit, Diagnostic.collect_pairwise _, hasErrors_iff source limit,
    raises_iff source limit, fun errors => ?_⟩
  rw [outline_eq_error_iff]
  refine and_congr_right fun hdiagnostics => (and_iff_right ?_).symm
  rw [← hdiagnostics]
  rfl

end Document

end WorldDoc
