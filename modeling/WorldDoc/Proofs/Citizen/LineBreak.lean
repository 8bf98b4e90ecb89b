import WorldDoc.Proofs.Citizen.Layout
import WorldDoc.Proofs.Citizen.Naming
import WorldDoc.Proofs.Citizen.Renaming
import WorldDoc.Proofs.Parse.LineBreak

/-!
# Citizens and line breaks

Names and keys are kept as they are written, with the line breaks in them. As long as no two of them
become the same (`ApartWithFeeds`), the same citizens are built from a text and from the text with
its line breaks as line feeds, but for these, or the same key is rejected, at a field that has moved
with its text (`Document.corresponds_normalized`), to the same line and column
(`Document.paired_take_start_of_duplicateField`). If all line breaks of the text are CR LF, names
stay apart (`Document.apartWithFeeds_of_feedsPaired`).

## Shape of the proof

The trees are the same but for carriage returns, so the outline of the one is that of the other with
its texts rewritten and its ranges moved (`SyntaxTree.gist_outline_stripped`), and what becomes of a
rewritten outline is known. Left is that rewriting does no harm to the names that are looked up.
These are words, which have no line breaks, and all other names begin with a quote, as they are the
texts of words and strings (`Document.namedBy_of_citizensBy`).
-/

namespace WorldDoc

open LineBreak

/-! ## Outlines -/

namespace SyntaxTree

variable {text : List Char} {f : List Char → List Char}

mutual

/-- If a tree without carriage returns has the texts of the tree rewritten, its outline has those of
the outline, and the ranges without carriage returns. -/
theorem gist_outline_stripped : (t : SyntaxTree) → (t.stripped text).gist = (t.retexted f).gist →
    (t.stripped text).outline.gist id = (t.outline.rewritten (fun x => String.ofList (f x.toList))
      (Option.map (TextRange.stripped text))).gist id
  | token k r x, h => by
      obtain ⟨-, -, hx⟩ := SyntaxTree.token.inj h
      rw [stripped, outline, outline, Outline.rewritten, Outline.gist, Outline.gist, hx]
      rfl
  | node k r x cs, h => by
      rw [stripped, retexted, gist, gist] at h
      obtain ⟨-, -, hx, hgists⟩ := SyntaxTree.node.inj h
      rw [stripped, outline, outline, Outline.rewritten, Outline.gist, Outline.gist, hx,
        gists_outlineNodes_stripped cs hgists]
      rfl

/-- The outlines of elements without carriage returns are those of the elements with their texts
rewritten. -/
theorem gists_outlineNodes_stripped : (ts : List SyntaxTree) →
    gists (strippedAll text ts) = gists (retextedAll f ts) →
    Outline.gists id (outlineNodes (strippedAll text ts)) =
      Outline.gists id (Outline.rewrittenAll (fun x => String.ofList (f x.toList))
        (Option.map (TextRange.stripped text)) (outlineNodes ts))
  | [], _ => rfl
  | t :: ts, h => by
      obtain ⟨hgist, hgists⟩ := List.cons.inj h
      have hlater := gists_outlineNodes_stripped ts hgists
      have hnode : (t.stripped text).isNode = t.isNode := by cases t <;> rfl
      rw [strippedAll, outlineNodes, outlineNodes, hnode]
      cases t.isNode with
      | false => exact hlater
      | true =>
        show Outline.gists id (_ :: _) = Outline.gists id (_ :: _)
        rw [Outline.gists, Outline.gists, gist_outline_stripped t hgist, hlater]

end

/-- An outline among those of some elements is the outline of one of them. -/
theorem exists_of_mem_outlineNodes {ts : List SyntaxTree} {o : Outline} (h : o ∈ outlineNodes ts) :
    ∃ t ∈ ts, t.outline = o := by
  induction ts with
  | nil => exact absurd h List.not_mem_nil
  | cons t ts ih =>
    have hlater (h : o ∈ outlineNodes ts) : ∃ u ∈ t :: ts, u.outline = o := by
      obtain ⟨u, hu, houtline⟩ := ih h
      exact ⟨u, List.mem_cons_of_mem _ hu, houtline⟩
    rw [outlineNodes] at h
    split at h
    · rcases List.mem_cons.mp h with rfl | h
      · exact ⟨t, List.mem_cons_self, rfl⟩
      · exact hlater h
    · exact hlater h

/-- A child of an outline is the outline of a child. -/
theorem exists_of_mem_children_outline {t : SyntaxTree} {o : Outline} (h : o ∈ t.outline.children) :
    ∃ u ∈ t.children, u.outline = o := by
  refine exists_of_mem_outlineNodes ?_
  cases t <;> exact h

/-- An outline has the range of its element. -/
theorem range_outline (t : SyntaxTree) : t.outline.range = some t.range := by
  cases t <;> rfl

end SyntaxTree

/-! ## Where a key comes twice -/

namespace Citizen

variable {policy : DuplicatePolicy} {root : Outline} {declaration key : String}
  {range : Option TextRange}

/-- What fails for a list fails for one of its elements. -/
theorem exists_of_mapM_eq_error {ε α β : Type} {f : α → Except ε β} {as : List α} {e : ε}
    (h : as.mapM f = .error e) : ∃ a ∈ as, f a = .error e := by
  induction as with
  | nil => contradiction
  | cons a as ih =>
    rw [List.mapM_cons] at h
    cases hf : f a with
    | error e' =>
      rw [hf] at h
      exact ⟨a, List.mem_cons_self, hf.trans (congrArg Except.error (Except.error.inj h))⟩
    | ok b =>
      rw [hf] at h
      cases hlater : as.mapM f with
      | error e' =>
        rw [hlater] at h
        obtain ⟨a', ha', hfails⟩ := ih (hlater.trans (congrArg Except.error (Except.error.inj h)))
        exact ⟨a', List.mem_cons_of_mem _ ha', hfails⟩
      | ok bs =>
        rw [hlater] at h
        contradiction

/-- A key that comes twice is rejected at a field of a declaration. -/
theorem exists_field_of_duplicateField (hroot : root.kind ≠ .node .root)
    (h : (allOfOutline policy root).outcome = .error (.duplicateField declaration key range)) :
    ∃ n ∈ root.children, ∃ f ∈ n.children, f.range = range := by
  rw [outcome_allOfOutline (.self hroot)] at h
  obtain ⟨n, hn, hfails⟩ := exists_of_mapM_eq_error h
  cases outcome_eq_error_iff.mp hfails with
  | @field kind name before later f entries failure hheads hfields hbefore hf =>
    have hmem : f ∈ n.children := by
      have hfield : f ∈ n.fieldNodes := hfields ▸ List.mem_append_right _ List.mem_cons_self
      exact List.mem_of_mem_tail (List.mem_filter.mp hfield).1
    cases hf with
    | unread h => cases h
    | repeatedKey => exact ⟨n, (List.mem_filter.mp hn).1, f, hmem, rfl⟩

end Citizen

namespace Document

open SyntaxTree (Occurs Leaf endOf leavesOf)

variable {source : SourceText} {limit : NestingLimit} {policy : DuplicatePolicy}

/-! ## Elements of a tree -/

/-- The leaves up to an element and those of the element begin the leaves of the tree. -/
theorem leaves_of_occurs {root t : SyntaxTree} {before : List Leaf} (h : Occurs root before t) :
    before ++ t.leaves <+: root.leaves := by
  induction h with
  | root => exact List.prefix_rfl
  | @child before parent t earlier later h hchildren ih =>
    have hleaves : parent.leaves = leavesOf parent.children := by
      cases parent with
      | token => exact absurd hchildren (by simp [SyntaxTree.children])
      | node => rfl
    rw [hleaves, hchildren, SyntaxTree.leavesOf_append, leavesOf] at ih
    refine List.IsPrefix.trans ⟨leavesOf later, ?_⟩ ih
    simp only [List.append_assoc]

/-- Every element of a tree starts where a token starts or stops, or at the start of the text. -/
theorem paired_take_start_of_occurs (h : Paired source.toList) {before : List Leaf} {t : SyntaxTree}
    (hoccurs : Occurs (parse source limit).root before t) :
    Paired (source.toList.take t.range.start) := by
  obtain ⟨hleaves, hexact⟩ := exact_of_occurs source limit
  have htoken {l : Leaf} (hl : l ∈ before ++ t.leaves) :
      ∃ u ∈ tokens source.toList, l.2.1 = u.range := by
    have hmem := (leaves_of_occurs hoccurs).subset hl
    rw [hleaves] at hmem
    obtain ⟨u, hu, rfl⟩ := List.mem_map.mp hmem
    exact ⟨u, (List.mem_filter.mp hu).1, rfl⟩
  cases hfirst : t.leaves with
  | nil =>
    rw [(hexact before t hoccurs).empty hfirst]
    show Paired (source.toList.take (endOf 0 before))
    rw [endOf]
    cases hlast : before.getLast? with
    | none => trivial
    | some l =>
      obtain ⟨u, hu, hrange⟩ := htoken (List.mem_append_left _ (List.mem_of_getLast? hlast))
      show Paired (source.toList.take l.2.1.stop)
      rw [hrange]
      exact paired_take_stop h hu
  | cons l ls =>
    have hhead : t.leaves.head? = some l := by rw [hfirst, List.head?_cons]
    obtain ⟨u, hu, hrange⟩ := htoken (List.mem_append_right _ (hfirst ▸ List.mem_cons_self))
    rw [(hexact before t hoccurs).start l hhead, hrange]
    exact paired_take_start h hu

/-- A key that comes twice is rejected at an offset of the text that cuts no line break. -/
theorem paired_take_start_of_duplicateField (h : Paired source.toList)
    (hclean : (parse source limit).diagnostics = []) {declaration key : String}
    {range : Option TextRange} (houtcome : (citizensBy (.standard limit) policy source).outcome =
      .error (.duplicateField declaration key range)) :
    ∃ r, range = some r ∧ r.start ≤ source.toList.length ∧
      Paired (source.toList.take r.start) := by
  rw [outcome_citizensBy policy hclean] at houtcome
  have hroot : (parse source limit).sourceFile.outline.kind ≠ .node .root := nofun
  obtain ⟨n, hn, f, hf, hrange⟩ := Citizen.exists_field_of_duplicateField hroot houtcome
  obtain ⟨d, hd, rfl⟩ := SyntaxTree.exists_of_mem_children_outline hn
  obtain ⟨t, ht, rfl⟩ := SyntaxTree.exists_of_mem_children_outline hf
  -- the field is two levels under the node over the declarations
  have hfile : (parse source limit).root.children = [] ++ (parse source limit).sourceFile :: [] := rfl
  obtain ⟨earlier, later, hchildren⟩ := List.append_of_mem hd
  obtain ⟨earlier', later', hfields⟩ := List.append_of_mem ht
  have hoccurs := ((Occurs.root.child hfile).child hchildren).child hfields
  refine ⟨t.range, hrange.symm.trans (SyntaxTree.range_outline t), ?_,
    paired_take_start_of_occurs h hoccurs⟩
  have hwithin := ((exact_of_occurs source limit).2 _ t hoccurs).within
  exact Nat.le_trans t.range.start_le_stop hwithin

/-! ## Building -/

/-- Line breaks as line feeds in the text are line breaks as line feeds in the tree. -/
theorem sourceFile_normalized (h : Paired source.toList) (limit : NestingLimit) :
    (parse source.normalized limit).sourceFile =
      (parse source limit).sourceFile.stripped source.toList := by
  have hroot := congrArg SyntaxTree.children (root_normalized h limit)
  exact (List.cons.inj hroot).1

/-- Line breaks as line feeds in the text are line breaks as line feeds in the gist of the
outline. -/
theorem gist_outline_normalized (h : Paired source.toList) (limit : NestingLimit) :
    (parse source.normalized limit).sourceFile.outline.gist id =
      ((parse source limit).sourceFile.outline.rewritten normalized
        (Option.map (TextRange.stripped source.toList))).gist id := by
  have hgists := (agree_normalized h limit).gists
  rw [sourceFile_normalized h]
  refine SyntaxTree.gist_outline_stripped _ ?_
  rw [← sourceFile_normalized h]
  exact (List.cons.inj hgists).1.symm

/-- A failure of the same gist as a rejected key is that. -/
theorem eq_duplicateField_of_gist {failure : Failure} {declaration key : String}
    {range : Option TextRange}
    (h : failure.gist id = (Failure.duplicateField declaration key range).gist id) :
    failure = .duplicateField declaration key range := by
  cases failure <;> first | exact h | contradiction

/-- The text with its line breaks as line feeds is built from the rewritten outline. -/
theorem outcome_citizensBy_normalized (h : Paired source.toList)
    (hclean : (parse source limit).diagnostics = []) (policy : DuplicatePolicy) :
    (citizensBy (.standard limit) policy source.normalized).outcome =
      (Citizen.allOfOutline policy ((parse source limit).sourceFile.outline.rewritten normalized
        (Option.map (TextRange.stripped source.toList)))).outcome := by
  have hclean' : (parse source.normalized limit).diagnostics = [] := by
    rw [diagnostics_normalized h, hclean, List.map_nil]
  have hsame : SameOutcome id id (citizensBy (.standard limit) policy source.normalized).outcome
      (Citizen.allOfOutline policy ((parse source limit).sourceFile.outline.rewritten normalized
        (Option.map (TextRange.stripped source.toList)))).outcome := by
    rw [outcome_citizensBy policy hclean', SameOutcome, sameOutcome_allOfOutline id policy,
      gist_outline_normalized h, ← sameOutcome_allOfOutline id policy]
  rcases hsame.cases with ⟨citizens, hok, hok'⟩ | ⟨failure, failure', herror, herror', hgist⟩
  · rw [hok, hok']
  · obtain ⟨-, declaration, key, range, rfl⟩ := eq_duplicateField_of_citizensBy hclean' herror
    rw [herror, herror', eq_duplicateField_of_gist hgist.symm]

end Document

/-! ## How names are written -/

/-- A word is written without carriage returns and does not begin with a quote. -/
structure IsWord (x : String) : Prop where
  return_not_mem : '\r' ∉ x.toList
  head?_ne : x.toList.head? ≠ some '"'

section Words

variable {text : List Char} {t : Token} {x y : String}

/-- A lexeme begins with the character at which it was found. -/
theorem head?_first_text (c : Char) (rest : List Char) : (Lexeme.first c rest).text.head? = some c := by
  obtain ⟨later, hlater⟩ := Lexeme.isPrefix_first_text c rest
  cases htext : (Lexeme.first c rest).text with
  | nil => exact absurd htext (Lexeme.first_text_ne_nil c rest)
  | cons d others =>
    rw [htext] at hlater
    exact congrArg some (List.cons.inj hlater).1

/-- Strings are the tokens that begin with a quote. -/
theorem kind_eq_string_iff (ht : t ∈ tokens text) : t.kind = .string ↔ t.text.head? = some '"' := by
  obtain ⟨c, rest, -, hfirst⟩ := exists_first_of_mem_tokens ht
  rw [hfirst, head?_first_text]
  constructor
  · intro hkind
    have hcase := Lexeme.firstOf_first c rest
    generalize Lexeme.first c rest = l at hkind hcase
    cases hcase with
    | quoted hc => exact congrArg some hc
    | name hc => exact absurd hkind (Lexeme.nameKind_ne _).2
    | punctuation hc =>
      obtain rfl := hkind
      unfold Lexeme.punctuation? at hc
      split at hc <;> contradiction
    | _ => contradiction
  · intro hc
    rw [Option.some.inj hc, Lexeme.first_quote, Lexeme.string_kind]

/-- What is a word among the tokens of a text is a word. -/
theorem isWord_of_wordIn (h : WordIn (tokens text) x) : IsWord x := by
  obtain ⟨t, ht, hkind, rfl⟩ := h
  obtain ⟨c, rest, -, hfirst⟩ := exists_first_of_mem_tokens ht
  constructor
  · rw [hfirst] at hkind
    rw [String.toList_ofList, hfirst]
    exact Lexeme.return_not_mem_first (by rw [hkind]; decide) (by rw [hkind]; decide)
  · rw [String.toList_ofList, Ne, ← kind_eq_string_iff ht, hkind]
    decide

/-- A name of a text is a word, or begins with a quote. -/
inductive IsName (x : String) : Prop where
  | word (h : IsWord x)
  | quoted (h : x.toList.head? = some '"')

/-- What is a name among the tokens of a text is a name. -/
theorem isName_of_nameIn (h : NameIn (tokens text) x) : IsName x := by
  obtain ⟨t, ht, hkind | hkind, rfl⟩ := h
  · exact .word (isWord_of_wordIn ⟨t, ht, hkind, rfl⟩)
  · exact .quoted (String.toList_ofList ▸ (kind_eq_string_iff ht).mp hkind)

/-- A word has no line breaks to rewrite. -/
theorem normalized_of_isWord (h : IsWord x) : normalized x = x := by
  rw [normalized, LineBreak.normalize_eq (.of_not_mem h.return_not_mem),
    withoutReturns_of_not_mem h.return_not_mem, String.ofList_toList]

/-- No other name becomes a word with its line breaks as line feeds. -/
theorem normalized_eq_iff_of_isWord (hx : IsWord x) (hy : IsName y) : normalized y = x ↔ y = x := by
  cases hy with
  | word hy => rw [normalized_of_isWord hy]
  | quoted hquote =>
    obtain ⟨rest, hrest⟩ := List.head?_eq_some_iff.mp hquote
    have hhead : (normalized y).toList.head? = some '"' := by
      rw [normalized, hrest, normalize_cons (by decide), String.toList_ofList, List.head?_cons]
    refine iff_of_false ?_ ?_
    · rintro rfl
      exact hx.head?_ne hhead
    · rintro rfl
      exact hx.head?_ne hquote

/-- Where all line breaks of a text are CR LF, its names are apart with line feeds for these. -/
theorem eq_of_normalized_eq (h : Paired text) (hfeeds : FeedsPaired text)
    (hx : NameIn (tokens text) x) (hy : NameIn (tokens text) y) (hsame : normalized x = normalized y) :
    x = y := by
  have hback {z : String} (hz : NameIn (tokens text) z) :
      String.ofList (withReturns (normalized z).toList) = z := by
    obtain ⟨t, ht, hkind, rfl⟩ := hz
    obtain ⟨later, hlater⟩ := drop_start_of_mem_tokens ht
    have hpart : t.text <:+: text :=
      ⟨text.take t.start, later, by rw [List.append_assoc, ← hlater, List.take_append_drop]⟩
    have hhead : t.text.head? ≠ some '\n' := by
      obtain ⟨c, rest, -, hfirst⟩ := exists_first_of_mem_tokens ht
      rw [hfirst] at hkind ⊢
      rw [head?_first_text]
      rintro hc
      rw [Option.some.inj hc, first_feed] at hkind
      rcases hkind with hkind | hkind <;> contradiction
    rw [normalized, String.toList_ofList, String.toList_ofList,
      withReturns_normalize (paired_of_mem_tokens h ht) (hfeeds.of_part hpart hhead)]
  rw [← hback hx, hsame, hback hy]

end Words

/-! ## Citizens of a text -/

/-- The names of the citizens of a kind. -/
def namesOf (citizens : List Citizen) (kind : CitizenKind) : Set String :=
  {x | ∃ c ∈ citizens, c.kind = kind ∧ c.name = x}

/-- No two keys of a citizen are the same once their line breaks are line feeds, nor are the names
of two citizens of one kind. -/
structure ApartWithFeeds (citizens : List Citizen) : Prop where
  keys : ∀ c ∈ citizens, Set.InjOn normalized {key | key ∈ c.fields.names}
  names : ∀ kind, Set.InjOn normalized (namesOf citizens kind)

namespace Document

variable {source : SourceText} {limit : NestingLimit} {policy : DuplicatePolicy}
  {citizens : List Citizen}

/-- The names of a text whose line breaks are all CR LF stay apart. -/
theorem apartWithFeeds_of_feedsPaired (h : Paired source.toList) (hfeeds : FeedsPaired source.toList)
    (hbuilt : (citizensBy (.standard limit) policy source).outcome = .ok citizens) :
    ApartWithFeeds citizens := by
  constructor
  · intro c hc key hkey key' hkey'
    have hnamed := namedBy_of_citizensBy hbuilt hc
    exact eq_of_normalized_eq h hfeeds (hnamed.keys key hkey) (hnamed.keys key' hkey')
  · rintro kind _ ⟨c, hc, -, rfl⟩ _ ⟨d, hd, -, rfl⟩
    exact eq_of_normalized_eq h hfeeds (namedBy_of_citizensBy hbuilt hc).name
      (namedBy_of_citizensBy hbuilt hd).name

/-- The names that the citizens of a text list are words. -/
theorem isWord_of_lists
    (hbuilt : (citizensBy (.standard limit) policy source).outcome = .ok citizens) {c : Citizen}
    (hc : c ∈ citizens) {x : String} (hx : c.Lists x) : IsWord x :=
  isWord_of_wordIn ((namedBy_of_citizensBy hbuilt hc).anchors x hx)

/-- To write line breaks as line feeds keeps apart the keys of a citizen, if they are apart
afterwards. -/
theorem keptBy_normalized
    (hbuilt : (citizensBy (.standard limit) policy source).outcome = .ok citizens)
    (hapart : ApartWithFeeds citizens) {c : Citizen} (hc : c ∈ citizens) : c.KeptBy normalized := by
  have hfield : IsWord Rule.coreAnchorsField := ⟨by decide, by decide⟩
  have hkey (key : String) (hkey : key ∈ c.fields.names) :
      normalized key = Rule.coreAnchorsField ↔ key = Rule.coreAnchorsField :=
    normalized_eq_iff_of_isWord hfield
      (isName_of_nameIn ((namedBy_of_citizensBy hbuilt hc).keys key hkey))
  refine ⟨?_, normalized_of_isWord hfield, fun x hx =>
    normalized_of_isWord (isWord_of_lists hbuilt hc hx)⟩
  rintro key (rfl | hmem) key' (rfl | hmem') hsame
  · rfl
  · rw [normalized_of_isWord hfield] at hsame
    exact ((hkey key' hmem').mp hsame.symm).symm
  · rw [normalized_of_isWord hfield] at hsame
    exact (hkey key hmem).mp hsame
  · exact hapart.keys c hc hmem hmem' hsame

/-- The citizens of a text are built alike once its line breaks are line feeds, or the same key is
rejected, if their names stay apart. -/
theorem corresponds_normalized (h : Paired source.toList)
    (hbuilt : (citizensBy (.standard limit) .overwrite source).outcome = .ok citizens)
    (hapart : ApartWithFeeds citizens) :
    ∃ citizens', List.Forall₂ (Citizen.Renamed normalized) citizens citizens' ∧ ∀ policy,
      Corresponds (fun cs cs' => cs = citizens ∧ cs' = citizens')
        (Failure.renamed normalized (Option.map (TextRange.stripped source.toList)))
        (citizensBy (.standard limit) policy source).outcome
        (citizensBy (.standard limit) policy source.normalized).outcome := by
  have hclean := diagnostics_eq_nil_of_outcome_citizensBy hbuilt
  have hclean' : (parse source.normalized limit).diagnostics = [] := by
    rw [diagnostics_normalized h, hclean, List.map_nil]
  obtain ⟨citizens', hbuilt'⟩ := exists_outcome_of_overwrite hclean'
  have hkept (c : Citizen) (hc : c ∈ citizens) := keptBy_normalized hbuilt hapart hc
  have hroot : (parse source limit).sourceFile.outline.kind ≠ .node .root := nofun
  rw [outcome_citizensBy .overwrite hclean] at hbuilt
  rw [outcome_citizensBy_normalized h hclean] at hbuilt'
  refine ⟨citizens',
    (Citizen.corresponds_allOfOutline hroot hbuilt hbuilt' hkept .overwrite).1, fun policy => ?_⟩
  rw [outcome_citizensBy policy hclean, outcome_citizensBy_normalized h hclean]
  exact (Citizen.corresponds_allOfOutline hroot hbuilt hbuilt' hkept policy).2

end Document

end WorldDoc
