import WorldDoc.Proofs.World.Renaming

/-!
# Names stand in the text

Nothing is called by a name that is not written somewhere: the name of a citizen and the keys of its
fields are texts of words and strings, and the names that it lists as anchors are texts of words
(`Document.namedBy_of_citizensBy`). Strings are taken for names with their quotes.
-/

namespace WorldDoc

/-- One of the tokens is a word of this text. -/
def WordIn (ts : List Token) (x : String) : Prop :=
  ∃ t ∈ ts, t.kind = .identifier ∧ String.ofList t.text = x

/-- One of the tokens is a word or a string of this text. -/
def NameIn (ts : List Token) (x : String) : Prop :=
  ∃ t ∈ ts, (t.kind = .identifier ∨ t.kind = .string) ∧ String.ofList t.text = x

section Subset

variable {ts us : List Token} {x : String}

/-- A word among some tokens is a word among more of them. -/
theorem WordIn.mono (h : WordIn ts x) (hsubset : ts ⊆ us) : WordIn us x :=
  h.imp fun _ ⟨ht, hword⟩ => ⟨hsubset ht, hword⟩

/-- A name among some tokens is a name among more of them. -/
theorem NameIn.mono (h : NameIn ts x) (hsubset : ts ⊆ us) : NameIn us x :=
  h.imp fun _ ⟨ht, hname⟩ => ⟨hsubset ht, hname⟩

end Subset

/-- The name of a citizen and its keys are texts of words and strings among some tokens, and the
names that it lists are texts of words. -/
structure Citizen.NamedBy (ts : List Token) (c : Citizen) : Prop where
  name : NameIn ts c.name
  keys : ∀ key ∈ c.fields.names, NameIn ts key
  anchors : ∀ x, c.Lists x → WordIn ts x

namespace Derivation

/-- A value that is a name writes one of its words. -/
theorem wordIn_of_name? {v : Value} {w : WorldDoc.Value} {x : String}
    (h : v.meaning? = some w) (hx : w.name? = some x) :
    WordIn v.tokens x := by
  cases v with
  | list opening items closing =>
    obtain ⟨ws, -, rfl⟩ := Option.map_eq_some_iff.mp h
    contradiction
  | scalar token kind writes =>
    refine ⟨token, List.mem_singleton_self token, ?_⟩
    rw [Value.meaning?] at h
    cases kind with
    | identifier =>
      obtain rfl := Option.some.inj h
      refine ⟨?_, Option.some.inj hx⟩
      cases hkind : token.kind <;> rw [hkind] at writes <;> first | rfl | contradiction
    | list => contradiction
    | _ =>
      obtain ⟨content, -, rfl⟩ := Option.map_eq_some_iff.mp h
      contradiction

/-- A name among the items of a list is one of their words. -/
theorem wordIn_of_mem_items {x : String} : (is : Items) → {ws : List WorldDoc.Value} →
    is.meanings? = some ws → ∀ w ∈ ws, w.name? = some x → WordIn is.tokens x
  | .none, ws, h, w, hw, hx => by
      obtain rfl := Option.some.inj h
      contradiction
  | .last v, ws, h, w, hw, hx => by
      obtain ⟨w', hw', rfl⟩ := Option.map_eq_some_iff.mp h
      obtain rfl := List.mem_singleton.mp hw
      exact wordIn_of_name? hw' hx
  | .more v comma later, ws, h, w, hw, hx => by
      rw [Items.meanings?] at h
      obtain ⟨w', hw', h⟩ := Option.bind_eq_some_iff.mp h
      obtain ⟨vs, hvs, h⟩ := Option.bind_eq_some_iff.mp h
      obtain rfl := Option.some.inj h
      rcases List.mem_cons.mp hw with rfl | hw
      · exact (wordIn_of_name? hw' hx).mono (List.subset_append_left _ _)
      · exact (wordIn_of_mem_items later hvs w hw hx).mono
          fun t ht => List.mem_append_right _ (List.mem_cons_of_mem _ ht)

/-- A name that a value lists is one of its words. -/
theorem wordIn_of_anchors? {v : Value} {w : WorldDoc.Value} {names : List (Option String)}
    {x : String} (h : v.meaning? = some w) (hnames : w.anchors? = some names) (hx : some x ∈ names) :
    WordIn v.tokens x := by
  obtain ⟨ws, hws, rfl⟩ := Option.map_eq_some_iff.mp hnames
  obtain ⟨item, hitem, hname⟩ := List.mem_map.mp hx
  cases v with
  | scalar token kind writes =>
    rw [Value.meaning?] at h
    cases kind with
    | list => contradiction
    | identifier =>
      obtain rfl := Option.some.inj h
      contradiction
    | _ =>
      obtain ⟨content, -, rfl⟩ := Option.map_eq_some_iff.mp h
      contradiction
  | list opening items closing =>
    obtain ⟨ws', hws', rfl⟩ := Option.map_eq_some_iff.mp h
    obtain rfl := Option.some.inj hws
    exact (wordIn_of_mem_items items hws' item hitem hname).mono
      fun t ht => List.mem_cons_of_mem _ (List.mem_append_left _ ht)

/-- The citizens of a document are named by its tokens. -/
theorem namedBy_of_mem {d : Document} {citizens : List Citizen} (h : d.citizens? = some citizens)
    {c : Citizen} (hc : c ∈ citizens) : c.NamedBy d.tokens := by
  obtain ⟨e, he, hcitizen⟩ := exists_of_mem_of_mapM_eq_some h hc
  obtain ⟨entries, hentries, rfl⟩ := Option.map_eq_some_iff.mp hcitizen
  have hdeclaration : e.tokens ⊆ d.tokens := fun t ht => List.mem_flatMap.mpr ⟨e, he, ht⟩
  have hfield {f : Field × Option (Terminal .comma)} (hf : f ∈ e.fields) :
      f.1.tokens ⊆ d.tokens := fun t ht => by
    have hmem : t ∈ e.fields.flatMap fieldTokens :=
      List.mem_flatMap.mpr ⟨f, hf, List.mem_append_left _ ht⟩
    exact hdeclaration (by simp [Declaration.tokens, hmem])
  refine ⟨⟨e.name.1, hdeclaration (by simp [Declaration.tokens]), e.name.2, rfl⟩,
    fun key hkey => ?_, ?_⟩
  · rw [NameTable.names_ofList, List.mem_eraseDups] at hkey
    obtain ⟨entry, hentry, rfl⟩ := List.mem_map.mp hkey
    obtain ⟨f, hf, hpair⟩ := exists_of_mem_of_mapM_eq_some hentries hentry
    obtain ⟨w, -, rfl⟩ := Option.map_eq_some_iff.mp hpair
    exact ⟨f.1.key.1, hfield hf List.mem_cons_self, f.1.key.2, rfl⟩
  · rintro x ⟨v, names, hv, hnames, hx⟩
    rw [Citizen.get?, NameTable.get?_ofList] at hv
    obtain ⟨entry, hentry, rfl⟩ := Option.map_eq_some_iff.mp hv
    have hmem := (List.mem_filter.mp (List.mem_of_getLast? hentry)).1
    obtain ⟨f, hf, hpair⟩ := exists_of_mem_of_mapM_eq_some hentries hmem
    obtain ⟨w, hw, rfl⟩ := Option.map_eq_some_iff.mp hpair
    refine (wordIn_of_anchors? hw hnames hx).mono fun t ht => hfield hf ?_
    exact List.mem_cons_of_mem _ (List.mem_cons_of_mem _ ht)

end Derivation

namespace Document

variable {source : SourceText} {limit : NestingLimit} {policy : DuplicatePolicy}
  {citizens : List Citizen}

/-- The citizens of a text are named by its tokens. -/
theorem namedBy_of_citizensBy
    (hbuilt : (citizensBy (.standard limit) policy source).outcome = .ok citizens) {c : Citizen}
    (hc : c ∈ citizens) : c.NamedBy (tokens source.toList) := by
  obtain ⟨d, -, htokens, hcitizens⟩ := exists_derivation_of_citizensBy hbuilt
  have hnamed := Derivation.namedBy_of_mem hcitizens hc
  have hsubset : d.tokens ⊆ tokens source.toList := by
    rw [htokens]
    exact List.filter_sublist.subset
  exact ⟨hnamed.name.mono hsubset, fun key hkey => (hnamed.keys key hkey).mono hsubset,
    fun x hx => (hnamed.anchors x hx).mono hsubset⟩

end Document

end WorldDoc
