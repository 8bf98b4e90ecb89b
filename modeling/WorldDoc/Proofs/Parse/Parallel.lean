import WorldDoc.Proofs.Parse.Acceptance
import WorldDoc.Proofs.Parse.Reporting
import WorldDoc.Proofs.Syntax.Gist

/-!
# Two texts with the same tokens

Two texts whose significant tokens are the same but for their places are parsed alike: the trees
have one gist, and the reports are the same but for their ranges, each at the token of the same
number in either text (`agree_sourceFile`). The routines look at kinds and texts of tokens only, and
that it is so has to be said of two runs at once. Of the texts only those of directives are looked
at, so all the others may be rewritten by some `f` on the way from the first text to the second.

## Shape of the proof

Two states are `Parallel` if the same tokens are ahead in both and the reports so far correspond.
What is read from parallel states has to `Agree`: it has one gist and leads to parallel states
again. There is a rule for each action, and each routine has its `agree_…` lemma. The one place
where offsets come in is the second report at one place, which is dropped: as tokens start one
behind the other in either text, the latest report stands at the current token in both runs or in
neither (`beyond_iff`).
-/

namespace WorldDoc

/-- What a token is apart from its place: its kind and its text. -/
def Token.key (t : Token) : TokenKind × List Char := (t.kind, t.text)

/-- What a token is apart from its place once its text is rewritten. -/
def Token.keyBy (f : List Char → List Char) (t : Token) : TokenKind × List Char :=
  (t.kind, f t.text)

namespace Parse

open State
open SyntaxTree (gists gists_append retextedAll retextedAll_append)

variable {f : List Char → List Char} {c c₁ c₂ : Context} {s₁ s₂ s₁' s₂' : State}
  {ts₁ ts₂ us₁ us₂ : List SyntaxTree}

/-- The texts of both contexts have the same tokens once those of the first are rewritten, which
leaves directives alone, and the limit is the same. -/
structure Relaid (f : List Char → List Char) (c₁ c₂ : Context) : Prop where
  limit : c₁.limit = c₂.limit
  tokens : (significantTokens c₁.source.toList).map (Token.keyBy f) =
    (significantTokens c₂.source.toList).map Token.key
  directive : ∀ t ∈ significantTokens c₁.source.toList, t.kind = .directive → f t.text = t.text

/-- Two reports that are the same but for their ranges and stand at the token of the same number. -/
def SameReport (c₁ c₂ : Context) (d₁ d₂ : Diagnostic) : Prop :=
  d₁ = { d₂ with range := d₁.range } ∧ ∃ n,
    n ≤ (significantTokens c₁.source.toList).length ∧
      n ≤ (significantTokens c₂.source.toList).length ∧
        d₁.range = rangeAt c₁ ((significantTokens c₁.source.toList).drop n) ∧
          d₂.range = rangeAt c₂ ((significantTokens c₂.source.toList).drop n)

/-- Reports that can be paired off so that those of each pair are the same. -/
def SameReports (c₁ c₂ : Context) (ds₁ ds₂ : List Diagnostic) : Prop :=
  ∃ pairs : List (Diagnostic × Diagnostic), ds₁ = pairs.map Prod.fst ∧ ds₂ = pairs.map Prod.snd ∧
    ∀ pair ∈ pairs, SameReport c₁ c₂ pair.1 pair.2

/-- The same tokens are ahead in both states, and the reports so far correspond. -/
structure Parallel (f : List Char → List Char) (c₁ c₂ : Context) (s₁ s₂ : State) : Prop where
  settled₁ : Settled c₁ s₁
  settled₂ : Settled c₂ s₂
  ahead : s₁.ahead.map (Token.keyBy f) = s₂.ahead.map Token.key
  reports : SameReports c₁ c₂ s₁.reports s₂.reports

/-- Elements have been read that are of one gist once the first ones are rewritten, and the states
after them are parallel. -/
structure Agree (f : List Char → List Char) (c₁ c₂ : Context) (ts₁ : List SyntaxTree) (s₁ : State)
    (ts₂ : List SyntaxTree) (s₂ : State) : Prop where
  gists : gists (retextedAll f ts₁) = gists ts₂
  states : Parallel f c₁ c₂ s₁ s₂

namespace SameReports

variable {ds₁ ds₂ : List Diagnostic}

/-- Reports that correspond still do when each has another one that is the same in front. -/
theorem cons {d₁ d₂ : Diagnostic} (h : SameReports c₁ c₂ ds₁ ds₂) (hd : SameReport c₁ c₂ d₁ d₂) :
    SameReports c₁ c₂ (d₁ :: ds₁) (d₂ :: ds₂) := by
  obtain ⟨pairs, rfl, rfl, hpairs⟩ := h
  exact ⟨(d₁, d₂) :: pairs, rfl, rfl, List.forall_mem_cons.mpr ⟨hd, hpairs⟩⟩

end SameReports

/-! ## Places -/

/-- Tokens of greater number start later. -/
theorem start_lt_start_of_lt {m n : Nat} (hm : m ≤ (significantTokens c.source.toList).length)
    (hlt : n < m) : (rangeAt c ((significantTokens c.source.toList).drop n)).start <
      (rangeAt c ((significantTokens c.source.toList).drop m)).start := by
  have hdrop : (significantTokens c.source.toList).drop m =
      ((significantTokens c.source.toList).drop n).drop (m - n) := by
    rw [List.drop_drop, Nat.add_sub_cancel' (Nat.le_of_lt hlt)]
  have hsplit := List.take_append_drop (m - n) ((significantTokens c.source.toList).drop n)
  rw [← hdrop] at hsplit
  have hsuffix := List.drop_suffix n (significantTokens c.source.toList)
  rw [← hsplit] at hsuffix ⊢
  refine start_lt_start hsuffix (List.ne_nil_of_length_pos ?_)
  rw [List.length_take, List.length_drop]
  omega

/-- Places come in the order of the tokens. -/
theorem start_lt_start_iff {m n : Nat} (hm : m ≤ (significantTokens c.source.toList).length)
    (hn : n ≤ (significantTokens c.source.toList).length) :
    (rangeAt c ((significantTokens c.source.toList).drop n)).start <
      (rangeAt c ((significantTokens c.source.toList).drop m)).start ↔ n < m := by
  refine ⟨fun h => ?_, start_lt_start_of_lt hm⟩
  rcases Nat.lt_trichotomy n m with hlt | rfl | hlt
  · exact hlt
  · exact absurd h (Nat.lt_irrefl _)
  · exact absurd h (Nat.lt_asymm (start_lt_start_of_lt hn hlt))

/-- The place of the current token by the number of the tokens before it. -/
theorem Settled.exists_drop {s : State} (h : Settled c s) :
    s.ahead.length ≤ (significantTokens c.source.toList).length ∧
      s.ahead = (significantTokens c.source.toList).drop
        ((significantTokens c.source.toList).length - s.ahead.length) :=
  ⟨h.text.length_le, List.suffix_iff_eq_drop.mp h.text⟩

namespace Relaid

/-- Texts with the same tokens have as many. -/
theorem length_eq (h : Relaid f c₁ c₂) : (significantTokens c₁.source.toList).length =
    (significantTokens c₂.source.toList).length := by
  simpa only [List.length_map] using congrArg List.length h.tokens

/-- Texts with the same tokens are parallel at their beginnings. -/
theorem initial (h : Relaid f c₁ c₂) :
    Parallel f c₁ c₂ (.initial c₁.source.toList) (.initial c₂.source.toList) :=
  ⟨settled_initial c₁.source c₁.limit, settled_initial c₂.source c₂.limit, h.tokens,
    [], rfl, rfl, fun _ hp => nomatch hp⟩

end Relaid

namespace Parallel

/-- In parallel states as many tokens are ahead. -/
theorem length_eq (h : Parallel f c₁ c₂ s₁ s₂) : s₁.ahead.length = s₂.ahead.length := by
  simpa only [List.length_map] using congrArg List.length h.ahead

/-- Nothing is ahead in either state, or a token of the same key in both. -/
theorem cases (h : Parallel f c₁ c₂ s₁ s₂) :
    (s₁.ahead = [] ∧ s₂.ahead = []) ∨ ∃ t₁ later₁ t₂ later₂, s₁.ahead = t₁ :: later₁ ∧
      s₂.ahead = t₂ :: later₂ ∧ t₁.kind = t₂.kind ∧ f t₁.text = t₂.text := by
  have hahead := h.ahead
  cases h₁ : s₁.ahead with
  | nil =>
    rw [h₁] at hahead
    exact Or.inl ⟨rfl, List.map_eq_nil_iff.mp hahead.symm⟩
  | cons t₁ later₁ =>
    rw [h₁, List.map_cons] at hahead
    obtain ⟨t₂, later₂, h₂, hkey, -⟩ := List.map_eq_cons_iff.mp hahead.symm
    obtain ⟨hkind, htext⟩ := Prod.mk.inj hkey
    exact Or.inr ⟨t₁, later₁, t₂, later₂, rfl, h₂, hkind.symm, htext.symm⟩

/-- In parallel states the current tokens have the same kind. -/
theorem kind_eq (h : Parallel f c₁ c₂ s₁ s₂) : s₁.kind = s₂.kind := by
  rcases h.cases with ⟨h₁, h₂⟩ | ⟨t₁, later₁, t₂, later₂, h₁, h₂, hkind, -⟩
  · rw [State.kind, State.kind, h₁, h₂]
  · rw [kind_of_ahead h₁, kind_of_ahead h₂, hkind]

/-- The text of a directive is the same in both. -/
theorem text_eq (hrelaid : Relaid f c₁ c₂) (h : Parallel f c₁ c₂ s₁ s₂)
    (hdirective : s₁.kind = .directive) : s₁.text = s₂.text := by
  rcases h.cases with ⟨h₁, h₂⟩ | ⟨t₁, later₁, t₂, later₂, h₁, h₂, -, htext⟩
  · rw [State.text, State.text, h₁, h₂]
  · have hmem := h.settled₁.text.subset (h₁ ▸ List.mem_cons_self)
    rw [kind_of_ahead h₁] at hdirective
    rw [text_of_ahead h₁, text_of_ahead h₂, ← htext, hrelaid.directive t₁ hmem hdirective]

/-- In parallel states the tokens ahead have the same kinds. -/
theorem kinds_eq (h : Parallel f c₁ c₂ s₁ s₂) :
    s₁.ahead.map (fun t => t.kind) = s₂.ahead.map fun t => t.kind := by
  have hkinds := congrArg (List.map Prod.fst) h.ahead
  rwa [List.map_map, List.map_map] at hkinds

/-! ## Actions -/

/-- All reports lie before the current token in both runs or in neither. -/
theorem beyond_iff (hrelaid : Relaid f c₁ c₂) (h : Parallel f c₁ c₂ s₁ s₂) :
    Beyond c₁ s₁ ↔ Beyond c₂ s₂ := by
  obtain ⟨hle₁, hahead₁⟩ := h.settled₁.exists_drop
  obtain ⟨hle₂, hahead₂⟩ := h.settled₂.exists_drop
  rw [← h.length_eq, ← hrelaid.length_eq] at hahead₂
  obtain ⟨pairs, hfst, hsnd, hpairs⟩ := h.reports
  rw [Beyond, Beyond, range_eq_rangeAt, range_eq_rangeAt, hahead₁, hahead₂, hfst, hsnd,
    List.forall_mem_map, List.forall_mem_map]
  refine forall_congr' fun pair => forall_congr' fun hpair => ?_
  obtain ⟨-, n, hn₁, hn₂, hrange₁, hrange₂⟩ := hpairs pair hpair
  rw [hrange₁, hrange₂, start_lt_start_iff (Nat.sub_le _ _) hn₁,
    start_lt_start_iff (hrelaid.length_eq ▸ Nat.sub_le _ _) hn₂]

/-- A finding that is reported in parallel states leaves them parallel. -/
theorem report (hrelaid : Relaid f c₁ c₂) (h : Parallel f c₁ c₂ s₁ s₂) (finding : Finding)
    {message₁ message₂ : Option String} (hmessage : message₁ = message₂)
    (herror : finding.severity = .error := by rfl) :
    Parallel f c₁ c₂ (s₁.report c₁ finding message₁) (s₂.report c₂ finding message₂) := by
  subst hmessage
  refine ⟨(Reads.report s₁ finding message₁ herror).settled h.settled₁,
    (Reads.report s₂ finding message₁ herror).settled h.settled₂, ?_, ?_⟩
  · rw [report_ahead, report_ahead, h.ahead]
  · rcases h.settled₁.report_reports finding message₁ with ⟨hbeyond₁, hnew₁⟩ | ⟨hnot₁, hsame₁⟩ <;>
      rcases h.settled₂.report_reports finding message₁ with ⟨hbeyond₂, hnew₂⟩ | ⟨hnot₂, hsame₂⟩
    · rw [hnew₁, hnew₂]
      refine h.reports.cons ⟨rfl, ?_⟩
      obtain ⟨hle₁, hahead₁⟩ := h.settled₁.exists_drop
      obtain ⟨hle₂, hahead₂⟩ := h.settled₂.exists_drop
      refine ⟨(significantTokens c₁.source.toList).length - s₁.ahead.length, Nat.sub_le _ _,
        hrelaid.length_eq ▸ Nat.sub_le _ _, ?_, ?_⟩
      · exact congrArg (rangeAt c₁) hahead₁
      · rw [hrelaid.length_eq, h.length_eq]
        exact congrArg (rangeAt c₂) hahead₂
    · exact absurd ((beyond_iff hrelaid h).mp hbeyond₁) hnot₂
    · exact absurd ((beyond_iff hrelaid h).mpr hbeyond₂) hnot₁
    · rw [hsame₁, hsame₂]
      exact h.reports

/-- Tokens that are skipped in parallel states leave them parallel. -/
theorem skip (h : Parallel f c₁ c₂ s₁ s₂) (n : Nat) :
    Parallel f c₁ c₂ (s₁.skip n) (s₂.skip n) where
  settled₁ := (Reads.leaves s₁ n).settled h.settled₁
  settled₂ := (Reads.leaves s₂ n).settled h.settled₂
  ahead := by rw [skip_ahead, skip_ahead, List.map_drop, List.map_drop, h.ahead]
  reports := h.reports

end Parallel

/-- The leaf of a token of the text shows the token's own text. -/
theorem leafOf_eq {t : Token} (h : t ∈ significantTokens c.source.toList) :
    leafOf c t = .token (.token t.kind) t.range (String.ofList t.text) := by
  rw [leafOf, SyntaxTree.leaf, slice_range_of_mem_tokens (List.mem_filter.mp h).1]

/-- Leaves of tokens that are the same have the same gists. -/
theorem gists_leaves {ahead₁ ahead₂ : List Token}
    (h₁ : ∀ t ∈ ahead₁, t ∈ significantTokens c₁.source.toList)
    (h₂ : ∀ t ∈ ahead₂, t ∈ significantTokens c₂.source.toList)
    (hkeys : ahead₁.map (Token.keyBy f) = ahead₂.map Token.key) :
    gists (retextedAll f (ahead₁.map (leafOf c₁))) = gists (ahead₂.map (leafOf c₂)) := by
  induction ahead₁ generalizing ahead₂ with
  | nil =>
    rw [List.map_eq_nil_iff.mp hkeys.symm]
    rfl
  | cons t₁ later₁ ih =>
    obtain ⟨t₂, later₂, rfl, hkey, hlater⟩ := List.map_eq_cons_iff.mp hkeys.symm
    obtain ⟨hkind, htext⟩ := Prod.mk.inj hkey
    rw [List.forall_mem_cons] at h₁ h₂
    rw [List.map_cons, List.map_cons, leafOf_eq h₁.1, leafOf_eq h₂.1, retextedAll,
      SyntaxTree.retexted, gists, gists, ih h₁.2 h₂.2 hlater.symm, hkind, htext,
      String.toList_ofList]
    rfl

namespace Agree

/-- Where nothing is read the elements agree. -/
theorem nothing (h : Parallel f c₁ c₂ s₁ s₂) : Agree f c₁ c₂ [] s₁ [] s₂ := ⟨rfl, h⟩

/-- Elements that agree may be followed by others that do. -/
theorem append (h : Agree f c₁ c₂ ts₁ s₁ ts₂ s₂) (h' : Agree f c₁ c₂ us₁ s₁' us₂ s₂') :
    Agree f c₁ c₂ (ts₁ ++ us₁) s₁' (ts₂ ++ us₂) s₂' :=
  ⟨by rw [retextedAll_append, gists_append, gists_append, h.gists, h'.gists], h'.states⟩

/-- Leaves that are taken in parallel states agree. -/
theorem leaves (h : Parallel f c₁ c₂ s₁ s₂) (n : Nat) :
    Agree f c₁ c₂ (s₁.leaves c₁ n) (s₁.skip n) (s₂.leaves c₂ n) (s₂.skip n) := by
  refine ⟨gists_leaves (fun t ht => ?_) (fun t ht => ?_) ?_, h.skip n⟩
  · exact h.settled₁.text.subset (List.mem_of_mem_take ht)
  · exact h.settled₂.text.subset (List.mem_of_mem_take ht)
  · rw [List.map_take, List.map_take, h.ahead]

/-- A node that may stand over several tokens shows nothing of their layout in its gist. -/
theorem node {kind : NodeKind} (hkind : (SyntaxKind.node kind).isAtomic = false) (o₁ o₂ : Nat)
    (h : Agree f c₁ c₂ ts₁ s₁ ts₂ s₂) :
    Agree f c₁ c₂ [.branch c₁.source (.node kind) o₁ ts₁] s₁
      [.branch c₂.source (.node kind) o₂ ts₂] s₂ := by
  refine ⟨?_, h.states⟩
  simp only [SyntaxTree.gists, SyntaxTree.branch, SyntaxTree.retextedAll, SyntaxTree.retexted,
    SyntaxTree.gist, hkind, h.gists, Bool.false_eq_true, if_false]

/-- Nodes around leaves agree, unless they are nodes whose text counts. -/
theorem wrap {kind : NodeKind} (hkind : (SyntaxKind.node kind).isAtomic = false)
    (h : Parallel f c₁ c₂ s₁ s₂) (n : Nat) :
    Agree f c₁ c₂ [(s₁.wrap c₁ kind n).1] (s₁.skip n) [(s₂.wrap c₂ kind n).1] (s₂.skip n) :=
  node hkind _ _ (leaves h n)

end Agree

/-- A node over a single token has its text. -/
theorem nodeOver_leafOf_eq {t : Token} (h : t ∈ significantTokens c.source.toList)
    (kind : NodeKind) : Derivation.nodeOver c.source kind [leafOf c t] =
      .node (.node kind) t.range (String.ofList t.text)
        [.token (.token t.kind) t.range (String.ofList t.text)] := by
  have hspan : SyntaxTree.span 0 [leafOf c t] = t.range := by
    show t.range.cover t.range = t.range
    ext <;> simp
  rw [Derivation.nodeOver, SyntaxTree.branch, hspan, leafOf_eq h,
    slice_range_of_mem_tokens (List.mem_filter.mp h).1]

namespace Agree

/-- Nodes around a single token agree. -/
theorem wrap_one (kind : NodeKind) (h : Parallel f c₁ c₂ s₁ s₂) (heof : s₁.kind ≠ .eof) :
    Agree f c₁ c₂ [(s₁.wrap c₁ kind 1).1] (s₁.skip 1) [(s₂.wrap c₂ kind 1).1] (s₂.skip 1) := by
  refine ⟨?_, h.skip 1⟩
  rcases h.cases with ⟨h₁, -⟩ | ⟨t₁, later₁, t₂, later₂, h₁, h₂, hkind, htext⟩
  · exact absurd (by rw [State.kind, h₁]) heof
  · have hmem₁ := h.settled₁.text.subset (h₁ ▸ List.mem_cons_self)
    have hmem₂ := h.settled₂.text.subset (h₂ ▸ List.mem_cons_self)
    simp only [State.wrap_one kind h₁, State.wrap_one kind h₂, nodeOver_leafOf_eq hmem₁,
      nodeOver_leafOf_eq hmem₂, SyntaxTree.retextedAll, SyntaxTree.retexted, SyntaxTree.gists,
      SyntaxTree.gist, String.toList_ofList, hkind, htext]

/-- A token that is taken if it is there is taken in both states or in neither. -/
theorem accept (h : Parallel f c₁ c₂ s₁ s₂) (kind : TokenKind) :
    Agree f c₁ c₂ (s₁.accept c₁ kind).1.toList (s₁.accept c₁ kind).2
      (s₂.accept c₂ kind).1.toList (s₂.accept c₂ kind).2 := by
  have hleaves := leaves h 1
  rcases h.cases with ⟨h₁, h₂⟩ | ⟨t₁, later₁, t₂, later₂, h₁, h₂, hkind, -⟩
  · rw [State.accept, State.accept, h₁, h₂]
    exact nothing h
  · rw [leaves_one h₁, leaves_one h₂] at hleaves
    by_cases htaken : t₁.kind = kind
    · rw [accept_of_ahead h₁ htaken, accept_of_ahead h₂ (hkind ▸ htaken)]
      exact hleaves
    · rw [accept_of_kind_ne (kind_of_ahead h₁ ▸ htaken),
        accept_of_kind_ne (kind_of_ahead h₂ ▸ hkind ▸ htaken)]
      exact nothing h

/-- A token that is expected is found in both states, or reported missing in both. -/
theorem expect (hrelaid : Relaid f c₁ c₂) (h : Parallel f c₁ c₂ s₁ s₂) (kind : TokenKind)
    (heof : kind ≠ .eof) : Agree f c₁ c₂ (s₁.expect c₁ kind).1.toList (s₁.expect c₁ kind).2
      (s₂.expect c₂ kind).1.toList (s₂.expect c₂ kind).2 := by
  have haccept := accept h kind
  by_cases hkind : s₁.kind = kind
  · obtain ⟨t₁, later₁, h₁⟩ := exists_ahead_of_kind hkind heof
    obtain ⟨t₂, later₂, h₂⟩ := exists_ahead_of_kind (h.kind_eq ▸ hkind) heof
    rw [accept_of_ahead h₁ t₁.2, accept_of_ahead h₂ t₂.2] at haccept
    rwa [expect_of_ahead h₁ t₁.2, expect_of_ahead h₂ t₂.2]
  · rw [expect_of_kind_ne hkind, expect_of_kind_ne (h.kind_eq ▸ hkind)]
    exact nothing (h.report hrelaid _ (by rw [h.kind_eq]))

/-- Where one run finds an element the other one does. -/
theorem isSome_eq {o₁ o₂ : Option SyntaxTree} (h : Agree f c₁ c₂ o₁.toList s₁ o₂.toList s₂) :
    o₁.isSome = o₂.isSome := by
  cases o₁ <;> cases o₂ <;> first | rfl | cases h.gists

end Agree

/-- Where one routine finds nothing, neither does another that finds as much. -/
theorem eq_none_of_isSome_eq {α : Type} {r : Option α × State}
    (h : (none : Option α).isSome = r.1.isSome) : ∃ next, r = (none, next) := by
  obtain ⟨o, next⟩ := r
  cases o with
  | none => exact ⟨next, rfl⟩
  | some a => cases h

/-- Where one routine finds something, so does another that finds as much. -/
theorem eq_some_of_isSome_eq {α : Type} {a : α} {r : Option α × State}
    (h : (some a).isSome = r.1.isSome) : ∃ b next, r = (some b, next) := by
  obtain ⟨o, next⟩ := r
  cases o with
  | none => cases h
  | some b => exact ⟨b, next, rfl⟩

/-! ## Skipping -/

/-- How many tokens stand before the next directive depends on their kinds alone. -/
theorem beforeDirective_eq {ahead₁ ahead₂ : List Token}
    (h : ahead₁.map (fun t => t.kind) = ahead₂.map fun t => t.kind) :
    beforeDirective ahead₁ = beforeDirective ahead₂ := by
  have hkinds (ahead : List Token) : beforeDirective ahead =
      ((ahead.map fun t => t.kind).takeWhile fun kind => decide (kind ≠ .directive)).length := by
    rw [List.takeWhile_map, List.length_map]
    rfl
  rw [hkinds, hkinds, h]

/-- After how many tokens brackets are balanced depends on their kinds alone. -/
theorem bracketedLength_eq {ahead₁ ahead₂ : List Token}
    (h : ahead₁.map (fun t => t.kind) = ahead₂.map fun t => t.kind) (opened : Int) :
    bracketedLength opened ahead₁ = bracketedLength opened ahead₂ := by
  induction ahead₁ generalizing ahead₂ opened with
  | nil => rw [List.map_eq_nil_iff.mp h.symm]
  | cons t₁ later₁ ih =>
    obtain ⟨t₂, later₂, rfl, hkind, hlater⟩ := List.map_eq_cons_iff.mp h.symm
    rw [bracketedLength, bracketedLength, hkind]
    simp only [ih hlater.symm]

/-- What is skipped up to the next directive agrees. -/
theorem agree_skipToDirective (h : Parallel f c₁ c₂ s₁ s₂) (current : Bool) :
    Agree f c₁ c₂ [(skipToDirective c₁ current s₁).1] (skipToDirective c₁ current s₁).2
      [(skipToDirective c₂ current s₂).1] (skipToDirective c₂ current s₂).2 := by
  have hlength : beforeDirective (s₁.ahead.drop (if current then 1 else 0)) =
      beforeDirective (s₂.ahead.drop (if current then 1 else 0)) :=
    beforeDirective_eq (by rw [List.map_drop, List.map_drop, h.kinds_eq])
  simp only [skipToDirective, hlength]
  exact Agree.wrap rfl h _

/-! ## Values and lists -/

/-- The two routines read lists alike. -/
def ListsAgree (f : List Char → List Char) (c₁ c₂ : Context) (list₁ list₂ : ListRoutine) : Prop :=
  ∀ s₁ s₂, Parallel f c₁ c₂ s₁ s₂ →
    Agree f c₁ c₂ [(list₁.run s₁).1] (list₁.run s₁).2 [(list₂.run s₂).1] (list₂.run s₂).2

/-- The two routines read values alike. -/
def ValuesAgree (f : List Char → List Char) (c₁ c₂ : Context) (element₁ element₂ : ValueRoutine) :
    Prop :=
  ∀ s₁ s₂, Parallel f c₁ c₂ s₁ s₂ →
    Agree f c₁ c₂ (element₁.run s₁).1.toList (element₁.run s₁).2
      (element₂.run s₂).1.toList (element₂.run s₂).2

/-- Lists nested too deep are skipped alike. -/
theorem listsAgree_tooDeep (hrelaid : Relaid f c₁ c₂) :
    ListsAgree f c₁ c₂ (tooDeep c₁) (tooDeep c₂) := by
  intro s₁ s₂ h
  have hreport : Parallel f c₁ c₂ (reportTooDeep c₁ s₁) (reportTooDeep c₂ s₂) :=
    h.report hrelaid .nestingTooDeep (by rw [hrelaid.limit])
  simp only [tooDeep, bracketedLength_eq h.kinds_eq]
  exact Agree.wrap rfl hreport _

/-- Values are read alike where lists are. -/
theorem valuesAgree_valueOf (hrelaid : Relaid f c₁ c₂) {list₁ list₂ : ListRoutine}
    (hlists : ListsAgree f c₁ c₂ list₁ list₂) :
    ValuesAgree f c₁ c₂ (valueOf c₁ list₁) (valueOf c₂ list₂) := by
  intro s₁ s₂ h
  simp only [valueOf, ← h.kind_eq]
  split
  · exact hlists s₁ s₂ h
  · split
    · rename_i kind writes
      refine Agree.wrap_one (.value kind) h fun heof => ?_
      rw [heof] at writes
      cases writes
    · exact Agree.nothing (h.report hrelaid .expectedValue (by rw [h.kind_eq]))

/-- Items agree where values are read alike. -/
theorem agree_items {element₁ element₂ : ValueRoutine}
    (helement : ValuesAgree f c₁ c₂ element₁ element₂) (s₁ : State) :
    ∀ s₂, Parallel f c₁ c₂ s₁ s₂ →
      Agree f c₁ c₂ (items c₁ element₁ s₁).1 (items c₁ element₁ s₁).2
        (items c₂ element₂ s₂).1 (items c₂ element₂ s₂).2 := by
  -- the induction is on the rounds over the first text, which those over the second follow
  fun_induction items c₁ element₁ s₁ with
  | case1 s₁ hends =>
    intro s₂ h
    rw [items_end (h.kind_eq ▸ hends)]
    exact Agree.nothing h
  | case2 s₁ hends next₁ heq₁ later₁ ih =>
    intro s₂ h
    have hnone := helement s₁ s₂ h
    rw [heq₁] at hnone
    obtain ⟨next₂, heq₂⟩ := eq_none_of_isSome_eq hnone.isSome_eq
    rw [heq₂] at hnone
    rw [items_none (h.kind_eq ▸ Bool.eq_false_iff.mpr hends) heq₂]
    exact (Agree.wrap rfl hnone.states 1).append (ih _ (hnone.states.skip 1))
  | case3 s₁ hends value₁ next₁ heq₁ same₁ hcomma₁ =>
    intro s₂ h
    have hvalue := helement s₁ s₂ h
    rw [heq₁] at hvalue
    obtain ⟨value₂, next₂, heq₂⟩ := eq_some_of_isSome_eq hvalue.isSome_eq
    rw [heq₂] at hvalue
    have hcomma := Agree.accept hvalue.states .comma
    rw [hcomma₁] at hcomma
    obtain ⟨same₂, hcomma₂⟩ := eq_none_of_isSome_eq hcomma.isSome_eq
    rw [items_last (h.kind_eq ▸ Bool.eq_false_iff.mpr hends) heq₂ hcomma₂]
    exact hvalue
  | case4 s₁ hends value₁ next₁ heq₁ comma₁ after₁ hcomma₁ later₁ ih =>
    intro s₂ h
    have hvalue := helement s₁ s₂ h
    rw [heq₁] at hvalue
    obtain ⟨value₂, next₂, heq₂⟩ := eq_some_of_isSome_eq hvalue.isSome_eq
    rw [heq₂] at hvalue
    have hcomma := Agree.accept hvalue.states .comma
    rw [hcomma₁] at hcomma
    obtain ⟨comma₂, after₂, hcomma₂⟩ := eq_some_of_isSome_eq hcomma.isSome_eq
    rw [hcomma₂] at hcomma
    rw [items_more (h.kind_eq ▸ Bool.eq_false_iff.mpr hends) heq₂ hcomma₂]
    exact hvalue.append (hcomma.append (ih _ hcomma.states))

/-- Lists are read alike where values are. -/
theorem listsAgree_listOf (hrelaid : Relaid f c₁ c₂) {element₁ element₂ : ValueRoutine}
    (helement : ValuesAgree f c₁ c₂ element₁ element₂) :
    ListsAgree f c₁ c₂ (listOf c₁ element₁) (listOf c₂ element₂) := by
  intro s₁ s₂ h
  have hitems := agree_items helement _ _ (h.skip 1)
  exact Agree.node rfl _ _ ((Agree.leaves h 1).append
    (hitems.append (Agree.expect hrelaid hitems.states .rbracket (by decide))))

/-- Lists are read alike, however many levels are left. -/
theorem listsAgree_lists (hrelaid : Relaid f c₁ c₂) (levels : Nat) :
    ListsAgree f c₁ c₂ (lists c₁ levels) (lists c₂ levels) := by
  induction levels with
  | zero => exact listsAgree_tooDeep hrelaid
  | succ levels ih => exact listsAgree_listOf hrelaid (valuesAgree_valueOf hrelaid ih)

/-! ## Fields and declarations -/

/-- Values agree. -/
theorem agree_value (hrelaid : Relaid f c₁ c₂) (h : Parallel f c₁ c₂ s₁ s₂) :
    Agree f c₁ c₂ (value c₁ c₁.limit.depth s₁).1.toList (value c₁ c₁.limit.depth s₁).2
      (value c₂ c₂.limit.depth s₂).1.toList (value c₂ c₂.limit.depth s₂).2 := by
  rw [hrelaid.limit]
  exact valuesAgree_valueOf hrelaid (listsAgree_lists hrelaid _) s₁ s₂ h

/-- Fields agree. -/
theorem agree_field (hrelaid : Relaid f c₁ c₂) (h : Parallel f c₁ c₂ s₁ s₂) (heof : s₁.kind ≠ .eof) :
    Agree f c₁ c₂ [(field c₁ s₁).1] (field c₁ s₁).2 [(field c₂ s₂).1] (field c₂ s₂).2 := by
  have hkey := Agree.wrap_one .fieldKey h heof
  have hcolon := Agree.expect hrelaid hkey.states .colon (by decide)
  have hcontent (next₁ next₂ : State) (hnext : Parallel f c₁ c₂ next₁ next₂) (found₁ found₂ : Bool)
      (hfound : found₁ = found₂) :
      Agree f c₁ c₂
        (if found₁ then value c₁ c₁.limit.depth next₁ else (none, next₁)).1.toList
        (if found₁ then value c₁ c₁.limit.depth next₁ else (none, next₁)).2
        (if found₂ then value c₂ c₂.limit.depth next₂ else (none, next₂)).1.toList
        (if found₂ then value c₂ c₂.limit.depth next₂ else (none, next₂)).2 := by
    subst hfound
    cases found₁ with
    | false => exact Agree.nothing hnext
    | true => exact agree_value hrelaid hnext
  exact Agree.node rfl s₁.offset s₂.offset
    (hkey.append (hcolon.append (hcontent _ _ hcolon.states _ _ hcolon.isSome_eq)))

/-- Bodies agree. -/
theorem agree_body (hrelaid : Relaid f c₁ c₂) (s₁ : State) : ∀ s₂, Parallel f c₁ c₂ s₁ s₂ →
    Agree f c₁ c₂ (body c₁ s₁).1 (body c₁ s₁).2 (body c₂ s₂).1 (body c₂ s₂).2 := by
  -- again on the rounds over the first text
  fun_induction body c₁ s₁ with
  | case1 s₁ hends =>
    intro s₂ h
    rw [body_end (h.kind_eq ▸ hends)]
    exact Agree.nothing h
  | case2 s₁ hends hname comma₁ later₁ ih =>
    intro s₂ h
    have heof : s₁.kind ≠ .eof := fun heof => hends (by rw [heof]; rfl)
    have hfield := agree_field hrelaid h heof
    have hcomma := Agree.accept hfield.states .comma
    rw [body_field (h.kind_eq ▸ Bool.eq_false_iff.mpr hends) (h.kind_eq ▸ hname)]
    exact hfield.append (hcomma.append (ih _ hcomma.states))
  | case3 s₁ hends hname reported₁ later₁ ih =>
    intro s₂ h
    have hreport : Parallel f c₁ c₂ reported₁ (s₂.report c₂ .unexpectedToken
        s!"Unexpected {s₂.kind.display}; expected a field `key: value`") :=
      h.report hrelaid .unexpectedToken (by rw [h.kind_eq])
    rw [body_misplaced (h.kind_eq ▸ Bool.eq_false_iff.mpr hends)
      (h.kind_eq ▸ Bool.eq_false_iff.mpr hname)]
    exact (Agree.wrap rfl hreport 1).append (ih _ (hreport.skip 1))

/-- Names of declarations agree. -/
theorem agree_declarationName (hrelaid : Relaid f c₁ c₂) (h : Parallel f c₁ c₂ s₁ s₂) :
    Agree f c₁ c₂ (declarationName c₁ s₁).1 (declarationName c₁ s₁).2
      (declarationName c₂ s₂).1 (declarationName c₂ s₂).2 := by
  simp only [declarationName, ← h.kind_eq]
  split
  · rename_i hname
    refine Agree.wrap_one .name h fun heof => ?_
    rw [heof] at hname
    cases hname
  · exact Agree.nothing (h.report hrelaid .expectedToken rfl)

/-- Blocks agree. -/
theorem agree_block (hrelaid : Relaid f c₁ c₂) (h : Parallel f c₁ c₂ s₁ s₂) :
    Agree f c₁ c₂ (block c₁ s₁).1 (block c₁ s₁).2 (block c₂ s₂).1 (block c₂ s₂).2 := by
  have hopen := Agree.expect hrelaid h .lbrace (by decide)
  unfold block
  cases hopen₁ : s₁.expect c₁ .lbrace with
  | mk brace₁ next₁ =>
    rw [hopen₁] at hopen
    cases brace₁ with
    | none =>
      obtain ⟨next₂, hopen₂⟩ := eq_none_of_isSome_eq hopen.isSome_eq
      rw [hopen₂] at hopen ⊢
      exact agree_skipToDirective hopen.states false
    | some brace₁ =>
      obtain ⟨brace₂, next₂, hopen₂⟩ := eq_some_of_isSome_eq hopen.isSome_eq
      rw [hopen₂] at hopen ⊢
      have hfields := agree_body hrelaid next₁ next₂ hopen.states
      have hclose := Agree.expect hrelaid hfields.states .rbrace (by decide)
      exact hopen.append (hfields.append hclose)

/-- Declarations agree. -/
theorem agree_declaration (hrelaid : Relaid f c₁ c₂) (h : Parallel f c₁ c₂ s₁ s₂)
    (hdirective : s₁.kind = .directive) :
    Agree f c₁ c₂ [(declaration c₁ s₁).1] (declaration c₁ s₁).2
      [(declaration c₂ s₂).1] (declaration c₂ s₂).2 := by
  simp only [declaration, ← h.text_eq hrelaid hdirective]
  split
  · exact agree_skipToDirective (h.report hrelaid .unknownDirective rfl) true
  · have hname := agree_declarationName hrelaid (h.skip 1)
    exact Agree.node rfl _ _ ((Agree.leaves h 1).append
      (hname.append (agree_block hrelaid hname.states)))

/-- Stray tokens agree. -/
theorem agree_strayTokens (hrelaid : Relaid f c₁ c₂) (h : Parallel f c₁ c₂ s₁ s₂) :
    Agree f c₁ c₂ [(strayTokens c₁ s₁).1] (strayTokens c₁ s₁).2
      [(strayTokens c₂ s₂).1] (strayTokens c₂ s₂).2 :=
  agree_skipToDirective (h.report hrelaid .unexpectedToken (by rw [h.kind_eq])) true

/-! ## Documents -/

/-- The declarations of a document agree. -/
theorem agree_declarations (hrelaid : Relaid f c₁ c₂) (s₁ : State) :
    ∀ s₂, Parallel f c₁ c₂ s₁ s₂ →
      Agree f c₁ c₂ (declarations c₁ s₁).1 (declarations c₁ s₁).2
        (declarations c₂ s₂).1 (declarations c₂ s₂).2 := by
  fun_induction declarations c₁ s₁ with
  | case1 s₁ heof =>
    intro s₂ h
    rw [declarations_end (h.kind_eq ▸ heof)]
    exact Agree.nothing h
  | case2 s₁ heof next₁ later₁ ih =>
    intro s₂ h
    by_cases hdirective : s₁.kind = .directive
    · have hnext : next₁ = declaration c₁ s₁ := dif_pos hdirective
      have hdeclaration := agree_declaration hrelaid h hdirective
      rw [← hnext] at hdeclaration
      rw [declarations_directive (h.kind_eq ▸ hdirective)]
      exact hdeclaration.append (ih _ hdeclaration.states)
    · have hnext : next₁ = strayTokens c₁ s₁ := dif_neg hdirective
      have hstray := agree_strayTokens hrelaid h
      rw [← hnext] at hstray
      rw [declarations_stray (h.kind_eq ▸ hdirective) (h.kind_eq ▸ heof)]
      exact hstray.append (ih _ hstray.states)

/-- The nodes over all declarations agree. -/
theorem agree_sourceFile (hrelaid : Relaid f c₁ c₂) (h : Parallel f c₁ c₂ s₁ s₂) :
    Agree f c₁ c₂ [(sourceFile c₁ s₁).1] (sourceFile c₁ s₁).2
      [(sourceFile c₂ s₂).1] (sourceFile c₂ s₂).2 :=
  Agree.node rfl _ _ (agree_declarations hrelaid s₁ s₂ h)

end Parse

end WorldDoc
