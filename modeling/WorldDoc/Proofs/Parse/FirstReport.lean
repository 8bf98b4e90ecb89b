import WorldDoc.Proofs.Parse.Following

/-!
# The first report

The first thing that is reported of a text stands at the first token that cannot be right: what
comes before it is the beginning of some document, and together with it that is no longer so. Where
nothing is reported every beginning of the text is the beginning of a document
(`first_report_at_first_wrong_token`).

## Shape of the proof

The first report stands where a walk along the places is refused. A walk depends on the tokens alone
and not on the parser, which gives the parser's verdict on other texts as well: tokens that can be
walked to the end of a document have a derivation, as parsing them leaves no report, and the tokens
of a derivation can be walked, as parsing them leaves none either. As every place can be left for
the end of a document, what can be walked is the beginning of one (`exists_walk_iff_viable`).
-/

namespace WorldDoc

/-- The tokens are the beginning of a document whose lists are nested at most `depth` deep, the end
of the file included. -/
def Derivation.Viable (depth : Nat) (ts : List Token) : Prop :=
  ∃ d : Derivation.Document, d.Within depth ∧
    ∃ e : Derivation.Terminal .eof, ts <+: d.tokens ++ [e.1]

/-- The beginning of a viable beginning is viable. -/
theorem Derivation.Viable.of_isPrefix {depth : Nat} {ts us : List Token} (h : Viable depth us)
    (hbeginning : ts <+: us) : Viable depth ts := by
  obtain ⟨d, hnesting, e, hus⟩ := h
  exact ⟨d, hnesting, e, hbeginning.trans hus⟩

namespace Parse

open State

variable {c : Context} {reports : List Diagnostic}

/-! ## Beginnings of documents -/

/-- Where a walk goes through nothing gets stuck. -/
theorem not_stuck_of_walk {ts : List Token} (hwalk : Place.walk c.limit.depth .top ts = some .top) :
    ¬ Stuck c .top ts reports := by
  rintro ⟨taken, rest, q, d, rfl, htaken, hrefuses, -⟩
  rw [Place.walk_append, htaken, Option.bind_some] at hwalk
  cases rest with
  | nil => exact hrefuses (Option.some.inj hwalk)
  | cons t later =>
    rw [Place.walk_cons, show q.next c.limit.depth t = none from hrefuses] at hwalk
    cases hwalk

/-- Tokens that can be walked to the end of a document have a derivation. -/
theorem exists_document_of_walk {ts : List Token}
    (hwalk : Place.walk c.limit.depth .top ts = some .top) :
    ∃ d : Derivation.Document, d.Within c.limit.depth ∧ d.tokens = ts := by
  have heof := Place.kind_ne_eof_of_walk hwalk
  rcases follows_sourceFile (c := c) heof with ⟨hclean, -⟩ | hstuck
  · exact exists_sourceFile (s := ⟨ts, 0, []⟩) heof hclean
  · exact absurd hstuck (not_stuck_of_walk hwalk)

/-- The tokens of a derivation can be walked to the end of a document. -/
theorem walk_tokens {d : Derivation.Document} (hnesting : d.Within c.limit.depth) :
    Place.walk c.limit.depth .top d.tokens = some .top := by
  have hread := sourceFile_tokens (c := c) (s := ⟨d.tokens, 0, []⟩) d hnesting rfl rfl
  have hstate : (declarations c ⟨d.tokens, 0, []⟩).2 =
      State.skip ⟨d.tokens, 0, []⟩ d.tokens.length := congrArg Prod.snd hread
  have hfollows := follows_declarations (c := c) ⟨d.tokens, 0, []⟩ rfl
  rw [hstate] at hfollows
  rcases hfollows with hclean | hstuck
  · exact hclean.walk_eq (by rw [skip_ahead, List.drop_length])
  · exact absurd hstuck not_stuck_nil

/-- Tokens of a text can be walked exactly if they are the beginning of a document. -/
theorem exists_walk_iff_viable {ts : List Token} (heof : ∀ t ∈ ts, t.kind ≠ .eof) :
    (∃ p, Place.walk c.limit.depth .top ts = some p) ↔
      Derivation.Viable c.limit.depth ts := by
  constructor
  · rintro ⟨p, hp⟩
    obtain ⟨ending, hending⟩ := Place.exists_walk_top c.limit.depth p
    have hwhole : Place.walk c.limit.depth .top (ts ++ ending) = some .top := by
      rw [Place.walk_append, hp]
      exact hending
    obtain ⟨d, hnesting, htokens⟩ := exists_document_of_walk hwhole
    refine ⟨d, hnesting, ⟨Place.sample .eof, rfl⟩, ?_⟩
    rw [htokens, List.append_assoc]
    exact List.prefix_append _ _
  · rintro ⟨d, hnesting, e, h⟩
    rcases List.prefix_concat_iff.mp h with rfl | h
    · exact absurd e.2 (heof e.1 (List.mem_append_right _ List.mem_cons_self))
    · exact Place.exists_walk_of_isPrefix h (by rw [walk_tokens hnesting]; rfl)

/-- Up to the end of the file tokens are a document exactly if they can be walked to its end. -/
theorem walk_top_iff_viable {ts : List Token} {e : Token} (he : e.kind = .eof) :
    Place.walk c.limit.depth .top ts = some .top ↔
      Derivation.Viable c.limit.depth (ts ++ [e]) := by
  constructor
  · intro hwalk
    obtain ⟨d, hnesting, rfl⟩ := exists_document_of_walk hwalk
    exact ⟨d, hnesting, ⟨e, he⟩, List.prefix_rfl⟩
  · rintro ⟨d, hnesting, e', h⟩
    have hwalk := walk_tokens (c := c) hnesting
    rcases List.prefix_concat_iff.mp h with heq | h
    · rwa [(List.append_inj' heq rfl).1]
    · exact absurd he (Place.kind_ne_eof_of_walk hwalk e
        (h.subset (List.mem_append_right _ List.mem_cons_self)))

/-- Where the walk is refused the tokens passed are the beginning of a document, and together with
the next one, be it the end of the file, they are not. -/
theorem Stuck.exists_wrong_token (h : Stuck c .top (significantTokens c.source.toList) reports) :
    ∃ k t d, (tokensToEnd c.source)[k]? = some t ∧ reports.getLast? = some d ∧ d.range = t.range ∧
      ¬ Derivation.Viable c.limit.depth ((tokensToEnd c.source).take (k + 1)) ∧
        ∀ j < k, Derivation.Viable c.limit.depth ((tokensToEnd c.source).take (j + 1)) := by
  obtain ⟨taken, rest, q, d, htext, hwalk, hrefuses, hfirst, hrange⟩ := h
  have hlength : taken.length ≤ (significantTokens c.source.toList).length := by
    rw [htext, List.length_append]
    exact Nat.le_add_right _ _
  obtain ⟨t, ht, htrange⟩ := getElem?_tokensToEnd hlength
  rw [htext, List.drop_left] at htrange
  have heof : ∀ u ∈ taken ++ rest, u.kind ≠ .eof := fun u hu =>
    kind_ne_eof_of_mem_tokens (List.mem_filter.mp (htext ▸ hu)).1
  refine ⟨taken.length, t, d, ht, hfirst, hrange.trans htrange.symm, fun hviable => ?_,
    fun j hj => ?_⟩
  · rw [tokensToEnd, htext, List.append_assoc, List.take_length_add_append] at hviable
    cases rest with
    | nil =>
      -- the document would have to end here
      have htop := (walk_top_iff_viable rfl).mpr hviable
      exact hrefuses (Option.some.inj (hwalk.symm.trans htop))
    | cons u later =>
      have hsplit : taken ++ u :: later = (taken ++ [u]) ++ later := by
        rw [List.append_assoc, List.singleton_append]
      have hpassed : ∀ v ∈ taken ++ [u], v.kind ≠ .eof := fun v hv =>
        heof v (hsplit ▸ List.mem_append_left later hv)
      obtain ⟨p, hp⟩ := (exists_walk_iff_viable (c := c) hpassed).mpr hviable
      rw [Place.walk_append, hwalk, Option.bind_some, Place.walk_cons,
        show q.next c.limit.depth u = none from hrefuses] at hp
      cases hp
  · have hpassed : ∀ u ∈ taken, u.kind ≠ .eof := fun u hu => heof u (List.mem_append_left _ hu)
    have hviable := (exists_walk_iff_viable (c := c) hpassed).mp ⟨q, hwalk⟩
    refine hviable.of_isPrefix ?_
    rw [tokensToEnd, htext, List.append_assoc, List.take_append_of_le_length hj]
    exact List.take_prefix _ _

end Parse

namespace Document

/-- The first report of a text stands at the first token with which it is no longer the beginning of
a document, where the end of the file counts as the last token. Where there is no such token nothing
is reported. -/
theorem first_report_at_first_wrong_token (source : SourceText) (limit : NestingLimit) :
    (∀ d, (reports source limit).head? = some d → ∃ k t, (tokensToEnd source)[k]? = some t ∧
        d.range = t.range ∧ ¬ Derivation.Viable limit.depth ((tokensToEnd source).take (k + 1)) ∧
          ∀ j < k, Derivation.Viable limit.depth ((tokensToEnd source).take (j + 1))) ∧
      (reports source limit = [] ↔
        ∀ k < (tokensToEnd source).length,
          Derivation.Viable limit.depth ((tokensToEnd source).take (k + 1))) := by
  have heof : ∀ t ∈ significantTokens source.toList, t.kind ≠ .eof := fun t ht =>
    kind_ne_eof_of_mem_tokens (List.mem_filter.mp ht).1
  rcases Parse.follows_sourceFile (c := ⟨source, limit⟩) heof with ⟨hclean, hwalk⟩ | hstuck
  · have hnone : reports source limit = [] := List.reverse_eq_nil_iff.mpr hclean
    have hviable : Derivation.Viable limit.depth (tokensToEnd source) :=
      (Parse.walk_top_iff_viable (c := ⟨source, limit⟩) rfl).mp hwalk
    rw [hnone]
    refine ⟨fun d hd => (nomatch hd), fun _ k _ => hviable.of_isPrefix (List.take_prefix _ _), ?_⟩
    exact fun _ => rfl
  · obtain ⟨k, t, first, ht, hfirst, hrange, hwrong, hbefore⟩ := hstuck.exists_wrong_token
    have hhead : (reports source limit).head? = some first := by
      rw [reports, List.head?_reverse]
      exact hfirst
    have hlt : k < (tokensToEnd source).length := (List.getElem?_eq_some_iff.mp ht).1
    refine ⟨fun d hd => ?_, fun hnone => ?_, fun hall => absurd (hall k hlt) hwrong⟩
    · obtain rfl := Option.some.inj (hhead.symm.trans hd)
      exact ⟨k, t, ht, hrange, hwrong, hbefore⟩
    · rw [hnone] at hhead
      cases hhead

end Document

end WorldDoc
