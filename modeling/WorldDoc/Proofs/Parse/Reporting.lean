import WorldDoc.Parse.Document
import WorldDoc.Proofs.Lexical.Placement
import WorldDoc.Proofs.Parse.Reading

/-!
# Where reports stand

A routine reports at the current token. So at any time every report stands at a token of the text
that was passed, or at the current one (`Settled`), and all routines keep it so (`Reads.settled`).
The significant tokens of a text start one behind the other, with the end of the file behind all of
them (`start_lt_start`). Hence the start of a report says at which token it stands
(`Settled.range_eq`).

A report is dropped if the latest one starts at the same place. That cannot happen where all reports
lie before the current token (`Beyond`), and so it is once a token has been taken
(`Settled.beyond_skip`).
-/

namespace WorldDoc

/-- The significant tokens of a text, and behind them the end of the file. -/
def tokensToEnd (source : SourceText) : List Token :=
  significantTokens source.toList ++ [.endOfFile source.length]

namespace Parse

open State

variable {c : Context} {s s' : State} {ts : List SyntaxTree} {passed later : List Token}

/-! ## Places -/

/-- Significant tokens start one behind the other. -/
theorem pairwise_start (text : List Char) :
    (significantTokens text).Pairwise fun t u => t.start < u.start :=
  (pairwise_start_tokens text).sublist List.filter_sublist

/-- Elements of a list that come in the order of their measure are the same if their measure is. -/
theorem eq_of_pairwise_lt {α : Type} {measure : α → Nat} {l : List α}
    (h : l.Pairwise fun a b => measure a < measure b) {a b : α} (ha : a ∈ l) (hb : b ∈ l)
    (heq : measure a = measure b) : a = b := by
  rw [List.pairwise_iff_getElem] at h
  obtain ⟨i, hi, rfl⟩ := List.getElem_of_mem ha
  obtain ⟨j, hj, rfl⟩ := List.getElem_of_mem hb
  rcases Nat.lt_trichotomy i j with hlt | rfl | hlt
  · exact absurd heq (Nat.ne_of_lt (h i j hi hj hlt))
  · rfl
  · exact absurd heq.symm (Nat.ne_of_lt (h j i hj hi hlt))

/-- Tokens of a text that start at one place are the same. -/
theorem eq_of_start_eq {text : List Char} {t u : Token} (ht : t ∈ significantTokens text)
    (hu : u ∈ significantTokens text) (hstart : t.start = u.start) : t = u :=
  eq_of_pairwise_lt (pairwise_start text) ht hu hstart

/-- The range of the current token where the given tokens are ahead. -/
def rangeAt (c : Context) (ahead : List Token) : TextRange := State.range ⟨ahead, 0, []⟩ c

/-- The range of the current token depends on what is ahead alone. -/
theorem range_eq_rangeAt (s : State) : s.range c = rangeAt c s.ahead := rfl

/-- The current token starts further on once tokens have been passed. -/
theorem start_lt_start (htext : passed ++ later <:+ significantTokens c.source.toList)
    (hpassed : passed ≠ []) :
    (rangeAt c (passed ++ later)).start < (rangeAt c later).start := by
  obtain ⟨t, passed, rfl⟩ := List.exists_cons_of_ne_nil hpassed
  -- the token that was passed and those still ahead stand in the text in this order
  have hsublist : (t :: (passed ++ later)).Sublist (tokens c.source.toList) :=
    htext.sublist.trans List.filter_sublist
  have hmem : t ∈ tokens c.source.toList := hsublist.subset List.mem_cons_self
  have hlt := start_lt_stop_of_mem_tokens hmem
  show t.start < _
  cases later with
  | nil => exact Nat.lt_of_lt_of_le hlt (stop_le_length_of_mem_tokens hmem)
  | cons u later =>
    have hpairwise := (pairwise_tokens c.source.toList).sublist hsublist
    exact Nat.lt_of_lt_of_le hlt
      (List.rel_of_pairwise_cons hpairwise (List.mem_append_right passed List.mem_cons_self))

/-- Where the same token is current the same tokens are ahead. -/
theorem eq_nil_of_start_eq (htext : passed ++ later <:+ significantTokens c.source.toList)
    (hstart : (rangeAt c (passed ++ later)).start = (rangeAt c later).start) : passed = [] := by
  by_cases hpassed : passed = []
  · exact hpassed
  · exact absurd (start_lt_start htext hpassed) (hstart ▸ Nat.lt_irrefl _)

/-- The current token, found among the tokens of the text by the number of those before it. -/
theorem getElem?_tokensToEnd {n : Nat} (hn : n ≤ (significantTokens c.source.toList).length) :
    ∃ t, (tokensToEnd c.source)[n]? = some t ∧
      t.range = rangeAt c ((significantTokens c.source.toList).drop n) := by
  rcases Nat.lt_or_eq_of_le hn with hlt | rfl
  · refine ⟨(significantTokens c.source.toList)[n], ?_, ?_⟩
    · rw [tokensToEnd, List.getElem?_append_left hlt, List.getElem?_eq_getElem hlt]
    · rw [List.drop_eq_getElem_cons hlt]
      rfl
  · refine ⟨.endOfFile c.source.length, ?_, ?_⟩
    · rw [tokensToEnd, List.getElem?_concat_length]
    · rw [List.drop_length]
      rfl

/-! ## Reports -/

/-- The tokens ahead are an end of those of the text, and every report stands at a token that was
passed or at the current one, the later ones further on. -/
structure Settled (c : Context) (s : State) : Prop where
  text : s.ahead <:+ significantTokens c.source.toList
  reports : ∀ d ∈ s.reports, ∃ passed, passed ++ s.ahead <:+ significantTokens c.source.toList ∧
    d.range = rangeAt c (passed ++ s.ahead)
  ordered : s.reports.Pairwise fun d earlier => earlier.range.start < d.range.start

/-- Every report stands before the current token. -/
def Beyond (c : Context) (s : State) : Prop :=
  ∀ d ∈ s.reports, d.range.start < (s.range c).start

/-- At the beginning nothing has been reported. -/
theorem settled_initial (source : SourceText) (limit : NestingLimit) :
    Settled ⟨source, limit⟩ (.initial source.toList) :=
  ⟨List.suffix_rfl, by simp [State.initial], List.Pairwise.nil⟩

/-- No report stands behind the current token. -/
theorem Settled.start_le (h : Settled c s) {d : Diagnostic} (hd : d ∈ s.reports) :
    d.range.start ≤ (s.range c).start := by
  obtain ⟨passed, htext, hrange⟩ := h.reports d hd
  by_cases hpassed : passed = []
  · rw [hrange, hpassed]
    exact Nat.le_refl _
  · exact hrange ▸ Nat.le_of_lt (start_lt_start htext hpassed)

/-- Where the latest report stands elsewhere all of them lie before the current token. -/
theorem Settled.beyond_of_latest (h : Settled c s) {latest : Diagnostic}
    {earlier : List Diagnostic} (hreports : s.reports = latest :: earlier)
    (hne : latest.range.start ≠ (s.range c).start) : Beyond c s := by
  have hlatest := Nat.lt_of_le_of_ne (h.start_le (hreports ▸ List.mem_cons_self)) hne
  intro d hd
  rcases List.mem_cons.mp (hreports ▸ hd) with rfl | hd
  · exact hlatest
  · have hordered := h.ordered
    rw [hreports] at hordered
    exact Nat.lt_trans (List.rel_of_pairwise_cons hordered hd) hlatest

/-- A report is added exactly if all others stand before the current token. -/
theorem Settled.report_reports (h : Settled c s) (finding : Finding) (message : Option String) :
    Beyond c s ∧
        (s.report c finding message).reports = finding.at (s.range c) message :: s.reports ∨
      ¬ Beyond c s ∧ (s.report c finding message).reports = s.reports := by
  unfold State.report record
  split
  · rename_i hnil
    exact Or.inl ⟨fun d hd => by rw [hnil] at hd; exact absurd hd List.not_mem_nil, by rw [hnil]⟩
  · rename_i latest earlier hreports
    split
    · rename_i hsame
      refine Or.inr ⟨fun hbeyond => ?_, rfl⟩
      exact Nat.ne_of_lt (hbeyond latest (hreports ▸ List.mem_cons_self)) hsame
    · rename_i hne
      exact Or.inl ⟨h.beyond_of_latest hreports hne, rfl⟩

/-- Whatever is read, reports stand at tokens that were passed or at the current one. -/
theorem Reads.settled (h : Reads c s ts s') (hs : Settled c s) : Settled c s' := by
  induction h with
  | nothing s => exact hs
  | @token s t later hahead =>
    have hskip : (s.skip 1).ahead = later := by
      rw [skip_ahead, hahead]
      rfl
    refine ⟨?_, fun d hd => ?_, hs.ordered⟩
    · rw [hskip]
      exact (List.suffix_cons t later).trans (hahead ▸ hs.text)
    · obtain ⟨passed, htext, hrange⟩ := hs.reports d hd
      have happend : passed ++ s.ahead = (passed ++ [t]) ++ (s.skip 1).ahead := by
        rw [hahead, hskip, List.append_assoc]
        rfl
      exact ⟨passed ++ [t], happend ▸ htext, happend ▸ hrange⟩
  | report s finding message =>
    rcases hs.report_reports finding message with ⟨hbeyond, hnew⟩ | ⟨-, hsame⟩
    · refine ⟨by rw [report_ahead]; exact hs.text, fun d hd => ?_, ?_⟩
      · rw [report_ahead]
        rcases List.mem_cons.mp (hnew ▸ hd : d ∈ _ :: s.reports) with rfl | hd
        · exact ⟨[], hs.text, rfl⟩
        · exact hs.reports d hd
      · rw [hnew]
        exact List.Pairwise.cons hbeyond hs.ordered
    · refine ⟨by rw [report_ahead]; exact hs.text, ?_, ?_⟩
      · rw [report_ahead, hsame]
        exact hs.reports
      · rw [hsame]
        exact hs.ordered
  | node kind h ih => exact ih hs
  | append earlier later ih₁ ih₂ => exact ih₂ (ih₁ hs)

namespace Settled

/-- A report that starts where the current token starts stands at that token. -/
theorem range_eq (h : Settled c s) {d : Diagnostic} (hd : d ∈ s.reports)
    (hstart : d.range.start = (s.range c).start) : d.range = s.range c := by
  obtain ⟨passed, htext, hrange⟩ := h.reports d hd
  obtain rfl := eq_nil_of_start_eq htext (hrange ▸ hstart)
  exact hrange

/-- Behind the tokens that were taken all earlier reports lie before the current one. -/
theorem beyond_of_taken (h : Settled c s) (hreports : s'.reports = s.reports)
    (hahead : s.ahead = passed ++ s'.ahead) (hpassed : passed ≠ []) : Beyond c s' := by
  intro d hd
  obtain ⟨before, htext, hrange⟩ := h.reports d (hreports ▸ hd)
  rw [hahead, ← List.append_assoc] at htext hrange
  rw [hrange]
  exact start_lt_start htext (by simp [hpassed])

/-- No report is dropped where all others stand before the current token. -/
theorem report_reports_of_beyond (h : Settled c s) (hbeyond : Beyond c s) (finding : Finding)
    (message : Option String) :
    (s.report c finding message).reports = finding.at (s.range c) message :: s.reports :=
  (h.report_reports finding message).elim And.right fun hnot => absurd hbeyond hnot.1

/-- Once a token was taken all reports stand before the current one. -/
theorem beyond_skip (h : Settled c s) (hne : s.ahead ≠ []) {n : Nat} (hn : 0 < n) :
    Beyond c (s.skip n) := by
  have htaken : s.ahead = s.ahead.take n ++ (s.skip n).ahead :=
    (List.take_append_drop n s.ahead).symm
  exact h.beyond_of_taken rfl htaken (by simp [hne, Nat.pos_iff_ne_zero.mp hn])

end Settled

/-- After a report there is one that starts at the current token, be it this one or another. -/
theorem exists_mem_report (s : State) (finding : Finding) (message : Option String) :
    ∃ d ∈ (s.report c finding message).reports, d.range.start = (s.range c).start := by
  unfold State.report record
  split
  · exact ⟨_, List.mem_singleton.mpr rfl, rfl⟩
  · rename_i latest earlier hreports
    split
    · rename_i hstart
      exact ⟨latest, hreports ▸ List.mem_cons_self, hstart⟩
    · exact ⟨_, List.mem_cons_self, rfl⟩

end Parse

/-! ## Reports of a whole text -/

namespace Document

variable {source : SourceText} {limit : NestingLimit} {d : Diagnostic}

/-- What the parser has to report of a text, in the order in which it is recorded. -/
def reports (source : SourceText) (limit : NestingLimit) : List Diagnostic :=
  (Parse.sourceFile ⟨source, limit⟩ (.initial source.toList)).2.reports.reverse

/-- The reports of a text stand at different places, one behind the other. -/
theorem reports_pairwise (source : SourceText) (limit : NestingLimit) :
    (reports source limit).Pairwise fun d later => d.range.start < later.range.start :=
  List.pairwise_reverse.mpr
    ((Parse.reads_sourceFile _).settled (Parse.settled_initial source limit)).ordered

/-- Reports at one place are the same. -/
theorem eq_of_mem_reports {e : Diagnostic} (hd : d ∈ reports source limit)
    (he : e ∈ reports source limit) (hrange : d.range = e.range) : d = e :=
  Parse.eq_of_pairwise_lt (reports_pairwise source limit) hd he (congrArg TextRange.start hrange)

/-- The diagnostics of a text are those of the lexer and those of the parser. -/
theorem mem_diagnostics : d ∈ (parse source limit).diagnostics ↔
    d ∈ lexicalDiagnostics source.toList ∨ d ∈ reports source limit := by
  simp [parse, reports, Diagnostic.collect, List.mem_mergeSort]

/-- The lexer finds faults of its own only. -/
theorem code_of_mem_lexicalDiagnostics {text : List Char} {d : Diagnostic}
    (hd : d ∈ lexicalDiagnostics text) : d.code = Finding.unterminatedString.code ∨
      d.code = Finding.unexpectedCharacter.code := by
  obtain ⟨t, -, ht⟩ := List.mem_filterMap.mp hd
  obtain ⟨fault, -, rfl⟩ := Option.map_eq_some_iff.mp ht
  cases fault
  · exact Or.inl rfl
  · exact Or.inr rfl

end Document

end WorldDoc
