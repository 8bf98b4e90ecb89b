import WorldDoc.Proofs.Citizen.Building
import WorldDoc.Proofs.Parse.Parallel

/-!
# Layout never matters

Two texts with the same significant tokens, whatever lies between these, have the same tree once
ranges and the texts of nodes are erased, the same reports at the same tokens, and the same citizens
or the same key that is rejected (`parse_and_load_of_same_tokens`).

That they are parsed alike is `agree_sourceFile`. Building citizens looks at the kinds of nodes and
at the texts of nodes over a single token, so it comes to the same for an outline and its gist
(`sameOutcome_allOfOutline`). Only a failure may show more: a range, and the text of a node that has
no value.
-/

namespace WorldDoc

/-- A failure with its place rewritten and without the text of the node that it is about. -/
def Failure.gist (place : Option TextRange → Option TextRange) : Failure → Failure
  | .structural defect range => .structural defect (place range)
  | .duplicateField declaration key range => .duplicateField declaration key (place range)
  | .valueType rule _ range => .valueType rule "" (place range)
  | failure => failure

/-- Two outcomes are the same, or both are failures of one gist once their places are rewritten. -/
def SameOutcome {α : Type} (place place' : Option TextRange → Option TextRange)
    (x y : Except Failure α) : Prop :=
  x.mapError (Failure.gist place) = y.mapError (Failure.gist place')

variable {place place' : Option TextRange → Option TextRange}

namespace SameOutcome

variable {α β : Type} {x y z : Except Failure α}

/-- An outcome is the same as itself. -/
theorem refl (x : Except Failure α) : SameOutcome place place x x := rfl

/-- The same success twice is the same outcome. -/
theorem ok (a : α) : SameOutcome place place' (.ok a) (.ok a) := rfl

/-- Failures of one gist are the same outcome. -/
theorem error {f g : Failure} (h : f.gist place = g.gist place') :
    SameOutcome place place' (.error f : Except Failure α) (.error g) := congrArg Except.error h

/-- Outcomes that are the same are one success, or failures of one gist. -/
theorem cases (h : SameOutcome place place' x y) :
    (∃ a, x = .ok a ∧ y = .ok a) ∨
      ∃ f g, x = .error f ∧ y = .error g ∧ f.gist place = g.gist place' := by
  cases x <;> cases y
  · exact Or.inr ⟨_, _, rfl, rfl, Except.error.inj h⟩
  · cases h
  · cases h
  · exact Or.inl ⟨_, rfl, congrArg _ (Except.ok.inj h).symm⟩

/-- What follows an outcome may depend on a success only. -/
theorem bind {f g : α → Except Failure β} (h : SameOutcome place place' x y)
    (hfg : ∀ a, SameOutcome place place' (f a) (g a)) :
    SameOutcome place place' (x >>= f) (y >>= g) := by
  rcases h.cases with ⟨a, rfl, rfl⟩ | ⟨e, e', rfl, rfl, hgist⟩
  · exact hfg a
  · exact error hgist

end SameOutcome

open Outline (unplaced kind_gist children_gist range_gist text_gist)

/-! ## Values -/

/-- Only the texts of nodes over a single token are read. -/
theorem Value.ofScalar?_gist (o : Outline) : ofScalar? (o.gist place) = ofScalar? o := by
  have htext (kind : ValueKind) (hne : kind ≠ .list) (h : o.kind = .node (.value kind)) :
      (o.gist place).text = o.text := text_gist place (by rw [h]; exact decide_eq_true hne)
  rw [ofScalar?, ofScalar?, kind_gist]
  split
  · rename_i h
    rw [htext .string (by decide) h]
  · rename_i h
    rw [htext .number (by decide) h]
  · rename_i h
    rw [htext .boolean (by decide) h]
  · rename_i h
    rw [htext .identifier (by decide) h]
  · rfl

/-- A single value of a node depends on the gist of the node alone. -/
theorem sameOutcome_ofScalar (o : Outline) :
    SameOutcome place id (Value.ofScalar o) (Value.ofScalar (o.gist place)) := by
  rw [Value.ofScalar, Value.ofScalar, Value.ofScalar?_gist]
  cases Value.ofScalar? o with
  | some v => exact SameOutcome.ok _
  | none => exact SameOutcome.error (by simp [Value.scalarFailure, Failure.gist])

mutual

/-- The value of a node depends on the gist of the node alone. -/
theorem sameOutcome_value : (o : Outline) →
    SameOutcome place id (Value.ofOutline o) (Value.ofOutline (o.gist place))
  | .node k t r cs => by
      by_cases hlist : k = .node (.value .list)
      · have hitems : Outline.nesting.items? (.node k t r cs) = some cs := if_pos hlist
        have hgist : Outline.nesting.items? ((Outline.node k t r cs).gist place) =
            some (Outline.gists place cs) := if_pos hlist
        rw [Value.ofOutline, Value.ofOutline, Nesting.convert_list _ _ hitems,
          Nesting.convert_list _ _ hgist]
        exact (sameOutcome_values cs).bind fun vs => SameOutcome.ok _
      · have hitems : Outline.nesting.items? (.node k t r cs) = none := if_neg hlist
        have hgist : Outline.nesting.items? ((Outline.node k t r cs).gist place) = none :=
          if_neg hlist
        rw [Value.ofOutline, Value.ofOutline, Nesting.convert_single _ _ hitems,
          Nesting.convert_single _ _ hgist]
        exact sameOutcome_ofScalar _

/-- The values of some nodes depend on their gists alone. -/
theorem sameOutcome_values : (os : List Outline) →
    SameOutcome place id (os.mapM Value.ofOutline) ((Outline.gists place os).mapM Value.ofOutline)
  | [] => SameOutcome.ok _
  | o :: os => by
      rw [Outline.gists, List.mapM_cons, List.mapM_cons]
      exact (sameOutcome_value o).bind fun v =>
        (sameOutcome_values os).bind fun vs => SameOutcome.ok _

end

/-! ## Citizens -/

/-- The entry of a field depends on the gist of the field alone. -/
theorem sameOutcome_readField (o : Outline) :
    SameOutcome place id (Citizen.readField o) (Citizen.readField (o.gist place)) := by
  rw [Citizen.readField, Citizen.readField, children_gist]
  cases o.children with
  | nil => exact SameOutcome.error (by simp [Failure.gist])
  | cons key rest =>
    simp only [List.map_cons, kind_gist]
    by_cases hkey : key.kind = .node .fieldKey
    · rw [if_neg (not_not_intro hkey), if_neg (not_not_intro hkey)]
      cases rest with
      | nil => exact SameOutcome.error (by simp [Failure.gist])
      | cons value others =>
        have htext : (key.gist place).text = key.text := text_gist place (by rw [hkey]; rfl)
        simp only [List.map_cons, htext]
        exact (sameOutcome_value value).bind fun v => SameOutcome.ok _
    · rw [if_pos hkey, if_pos hkey]
      exact SameOutcome.error (by simp [Failure.gist])

/-- What a child adds to the fields depends on the gist of the child alone. -/
theorem sameOutcome_addChild (policy : DuplicatePolicy) (kind : CitizenKind) (name : String)
    (fields : NameTable Value) (child : Outline) :
    SameOutcome place id (Citizen.addChild policy kind name fields child).outcome
      (Citizen.addChild policy kind name fields (child.gist place)).outcome := by
  rw [Citizen.addChild, Citizen.addChild, kind_gist]
  by_cases hfield : child.kind = .node .field
  · rw [if_neg (not_not_intro hfield), if_neg (not_not_intro hfield)]
    simp only [Traced.outcome_bind, Traced.outcome_ofExcept]
    refine (sameOutcome_readField child).bind fun entry => ?_
    obtain ⟨key, value⟩ := entry
    cases hinsert : fields.insertUnder policy key value with
    | none => exact SameOutcome.error (by simp [Failure.gist])
    | some insertion =>
      simp only [Traced.outcome_bind, Traced.outcome_logIf]
      exact SameOutcome.ok _
  · rw [if_pos hfield, if_pos hfield]
    exact SameOutcome.ok _

/-- What some children add to the fields depends on their gists alone. -/
theorem sameOutcome_addChildren (policy : DuplicatePolicy) (kind : CitizenKind) (name : String)
    (children : List Outline) (fields : NameTable Value) :
    SameOutcome place id (children.foldlM (Citizen.addChild policy kind name) fields).outcome
      ((children.map (Outline.gist place)).foldlM (Citizen.addChild policy kind name)
        fields).outcome := by
  induction children generalizing fields with
  | nil => exact SameOutcome.ok _
  | cons child later ih =>
    rw [List.map_cons, List.foldlM_cons, List.foldlM_cons, Traced.outcome_bind,
      Traced.outcome_bind]
    exact (sameOutcome_addChild policy kind name fields child).bind ih

/-- The citizen of a node depends on the gist of the node alone. -/
theorem sameOutcome_citizen (policy : DuplicatePolicy) (o : Outline) :
    SameOutcome place id (Citizen.ofOutline policy o).outcome
      (Citizen.ofOutline policy (o.gist place)).outcome := by
  rw [Citizen.ofOutline, Citizen.ofOutline, kind_gist, children_gist]
  split
  · cases o.children with
    | nil => exact SameOutcome.error (by simp [Failure.gist])
    | cons first rest =>
      simp only [List.map_cons, kind_gist]
      by_cases hname : first.kind = .node .name
      · have htext : (first.gist place).text = first.text := text_gist place (by rw [hname]; rfl)
        rw [if_neg (not_not_intro hname), if_neg (not_not_intro hname), htext]
        simp only [Traced.outcome_bind]
        exact (sameOutcome_addChildren policy _ _ rest .empty).bind fun fields =>
          SameOutcome.ok _
      · rw [if_pos hname, if_pos hname]
        exact SameOutcome.error (by simp [Failure.gist])
  · exact SameOutcome.error (by simp [Failure.gist])

/-- The citizens of some nodes depend on their gists alone. -/
theorem sameOutcome_citizens (policy : DuplicatePolicy) (os : List Outline) :
    SameOutcome place id (Citizen.ofNodes policy os).outcome
      (Citizen.ofNodes policy (os.map (Outline.gist place))).outcome := by
  induction os with
  | nil => exact SameOutcome.ok _
  | cons o os ih =>
    rw [List.map_cons, Citizen.ofNodes, Citizen.ofNodes, kind_gist]
    by_cases hdeclaration : o.kind.isDeclaration = true
    · rw [if_pos hdeclaration, if_pos hdeclaration]
      simp only [Traced.outcome_bind]
      exact (sameOutcome_citizen policy o).bind fun citizen =>
        ih.bind fun others => SameOutcome.ok _
    · rw [if_neg hdeclaration, if_neg hdeclaration]
      simp only [Traced.outcome_bind]
      exact ih

/-- The node over the declarations in a gist is the gist of that in the outline. -/
theorem unwrapRoot_gist (root : Outline) :
    (∃ file, Citizen.unwrapRoot root = .ok file ∧
      Citizen.unwrapRoot (root.gist place) = .ok (file.gist place)) ∨
    ∃ f g, Citizen.unwrapRoot root = .error f ∧ Citizen.unwrapRoot (root.gist place) = .error g ∧
      f.gist place = g.gist id := by
  rw [Citizen.unwrapRoot, Citizen.unwrapRoot, kind_gist, children_gist, List.find?_map]
  by_cases hroot : root.kind = .node .root
  · have hkind : (fun o : Outline => decide (o.kind = .node .sourceFile)) ∘ Outline.gist place =
        fun o => decide (o.kind = .node .sourceFile) := by
      funext o
      simp
    rw [if_pos hroot, if_pos hroot, hkind]
    cases root.children.find? fun o => decide (o.kind = .node .sourceFile) with
    | some file => exact Or.inl ⟨file, rfl, rfl⟩
    | none => exact Or.inr ⟨_, _, rfl, rfl, by simp [Failure.gist]⟩
  · rw [if_neg hroot, if_neg hroot]
    exact Or.inl ⟨root, rfl, rfl⟩

/-- Building the citizens of an outline comes to the same as building those of its gist. -/
theorem sameOutcome_allOfOutline (place : Option TextRange → Option TextRange)
    (policy : DuplicatePolicy) (root : Outline) :
    SameOutcome place id (Citizen.allOfOutline policy root).outcome
      (Citizen.allOfOutline policy (root.gist place)).outcome := by
  rw [Citizen.allOfOutline, Citizen.allOfOutline]
  simp only [Traced.outcome_bind, Traced.outcome_ofExcept]
  rcases unwrapRoot_gist root with ⟨file, hfile, hgist⟩ | ⟨f, g, hf, hg, hgist⟩
  · rw [hfile, hgist]
    have hcitizens : SameOutcome place id _ _ := sameOutcome_citizens policy file.children
    rw [← children_gist] at hcitizens
    exact hcitizens.bind fun citizens => SameOutcome.ok _
  · rw [hf, hg]
    exact SameOutcome.error hgist

/-! ## Whole texts -/

namespace Document

variable {source source₁ source₂ : SourceText} {limit : NestingLimit}

/-- The same tokens apart from their places. -/
def SameTokens (source₁ source₂ : SourceText) : Prop :=
  (significantTokens source₁.toList).map Token.key =
    (significantTokens source₂.toList).map Token.key

/-- Two reports of one code and message at the token of the same number. -/
def ReportedAlike (source₁ source₂ : SourceText) (d₁ d₂ : Diagnostic) : Prop :=
  d₁.code = d₂.code ∧ d₁.message = d₂.message ∧ ∃ (n : Nat) (t₁ t₂ : Token),
    (tokensToEnd source₁)[n]? = some t₁ ∧ (tokensToEnd source₂)[n]? = some t₂ ∧
      d₁.range = t₁.range ∧ d₂.range = t₂.range

/-- Two texts with the same tokens are parsed side by side. -/
theorem agree_of_sameTokens (h : SameTokens source₁ source₂) (limit : NestingLimit) :
    Parse.Agree id ⟨source₁, limit⟩ ⟨source₂, limit⟩
      [(parse source₁ limit).sourceFile]
      (Parse.sourceFile ⟨source₁, limit⟩ (.initial source₁.toList)).2
      [(parse source₂ limit).sourceFile]
      (Parse.sourceFile ⟨source₂, limit⟩ (.initial source₂.toList)).2 := by
  have hrelaid : Parse.Relaid id ⟨source₁, limit⟩ ⟨source₂, limit⟩ := ⟨rfl, h, fun _ _ _ => rfl⟩
  exact Parse.agree_sourceFile hrelaid hrelaid.initial

/-- Two texts with the same tokens have trees of one gist. -/
theorem gist_of_sameTokens (h : SameTokens source₁ source₂) (limit : NestingLimit) :
    (parse source₁ limit).sourceFile.gist = (parse source₂ limit).sourceFile.gist := by
  have hgists := (agree_of_sameTokens h limit).gists
  rw [SyntaxTree.retextedAll_id] at hgists
  exact (List.cons.inj hgists).1

/-- Two reports that are the same to the parser are told alike. -/
theorem reportedAlike_of_sameReport {d₁ d₂ : Diagnostic}
    (h : Parse.SameReport ⟨source₁, limit⟩ ⟨source₂, limit⟩ d₁ d₂) :
    ReportedAlike source₁ source₂ d₁ d₂ := by
  obtain ⟨hsame, n, hn₁, hn₂, hrange₁, hrange₂⟩ := h
  obtain ⟨t₁, ht₁, htrange₁⟩ := Parse.getElem?_tokensToEnd (c := ⟨source₁, limit⟩) hn₁
  obtain ⟨t₂, ht₂, htrange₂⟩ := Parse.getElem?_tokensToEnd (c := ⟨source₂, limit⟩) hn₂
  exact ⟨by rw [hsame], by rw [hsame], n, t₁, t₂, ht₁, ht₂, hrange₁.trans htrange₁.symm,
    hrange₂.trans htrange₂.symm⟩

/-- The citizens of two texts without diagnostics that have the same tokens. -/
theorem sameOutcome_citizensBy (h : SameTokens source₁ source₂)
    (hclean₁ : (parse source₁ limit).diagnostics = [])
    (hclean₂ : (parse source₂ limit).diagnostics = []) (policy : DuplicatePolicy) :
    SameOutcome unplaced unplaced (citizensBy (.standard limit) policy source₁).outcome
      (citizensBy (.standard limit) policy source₂).outcome := by
  rw [outcome_citizensBy policy hclean₁, outcome_citizensBy policy hclean₂, SameOutcome,
    sameOutcome_allOfOutline unplaced policy (parse source₁ limit).sourceFile.outline,
    sameOutcome_allOfOutline unplaced policy (parse source₂ limit).sourceFile.outline,
    SyntaxTree.gist_outline (gist_of_sameTokens h limit)]

/-- Where a text without diagnostics is not loaded a key has come twice. -/
theorem eq_duplicateField_of_citizensBy {policy : DuplicatePolicy} {failure : Failure}
    (hclean : (parse source limit).diagnostics = [])
    (h : (citizensBy (.standard limit) policy source).outcome = .error failure) :
    policy = .reject ∧
      ∃ declaration key range, failure = .duplicateField declaration key range := by
  obtain ⟨citizens, hbuilds, -⟩ := exists_builds hclean (Or.inr rfl)
  rw [outcome_citizensBy policy hclean] at h
  exact (hbuilds policy).eq_duplicateField_of_error h

/-- Texts with the same tokens are parsed alike: their trees are the same once ranges and the texts
of nodes are erased, and their reports are the same, each at the token of the same number. Where
neither has a diagnostic the same citizens are loaded from both, or the same key of the same
declaration is rejected. -/
theorem parse_and_load_of_same_tokens (source₁ source₂ : SourceText) (limit : NestingLimit)
    (h : SameTokens source₁ source₂) :
    (parse source₁ limit).root.erased = (parse source₂ limit).root.erased ∧
      (∃ pairs : List (Diagnostic × Diagnostic),
        reports source₁ limit = pairs.map Prod.fst ∧
          reports source₂ limit = pairs.map Prod.snd ∧
            ∀ pair ∈ pairs, ReportedAlike source₁ source₂ pair.1 pair.2) ∧
      ((parse source₁ limit).diagnostics = [] → (parse source₂ limit).diagnostics = [] →
        ∀ settings : Settings, ∃ building₁ building₂,
          loadCitizens { settings with grammar := none, limit := some limit } source₁ =
            .ok building₁ ∧
          loadCitizens { settings with grammar := none, limit := some limit } source₂ =
            .ok building₂ ∧
          ((∃ citizens, building₁.outcome = .ok citizens ∧ building₂.outcome = .ok citizens) ∨
            settings.duplicateFields = .reject ∧ ∃ declaration key range₁ range₂,
              building₁.outcome = .error (.duplicateField declaration key range₁) ∧
                building₂.outcome = .error (.duplicateField declaration key range₂))) := by
  have hagree := agree_of_sameTokens h limit
  refine ⟨?_, ?_, fun hclean₁ hclean₂ settings => ?_⟩
  · have hfile := SyntaxTree.erased_eq_of_gist_eq (gist_of_sameTokens h limit)
    rw [root, root, SyntaxTree.branch, SyntaxTree.branch, SyntaxTree.erased, SyntaxTree.erased,
      SyntaxTree.erasedAll, SyntaxTree.erasedAll, hfile]
    rfl
  · obtain ⟨pairs, hfst, hsnd, hpairs⟩ := hagree.states.reports
    refine ⟨pairs.reverse, ?_, ?_, fun pair hpair => ?_⟩
    · rw [reports, hfst, List.map_reverse]
    · rw [reports, hsnd, List.map_reverse]
    · exact reportedAlike_of_sameReport (hpairs pair (List.mem_reverse.mp hpair))
  · refine ⟨_, _, rfl, rfl, ?_⟩
    rcases (sameOutcome_citizensBy h hclean₁ hclean₂ settings.duplicateFields).cases with
      hok | ⟨failure₁, failure₂, hfailure₁, hfailure₂, hgist⟩
    · exact Or.inl hok
    · obtain ⟨hreject, declaration₁, key₁, range₁, rfl⟩ :=
        eq_duplicateField_of_citizensBy hclean₁ hfailure₁
      obtain ⟨-, declaration₂, key₂, range₂, rfl⟩ :=
        eq_duplicateField_of_citizensBy hclean₂ hfailure₂
      obtain ⟨rfl, rfl, -⟩ := Failure.duplicateField.inj hgist
      exact Or.inr ⟨hreject, declaration₁, key₁, range₁, range₂, hfailure₁, hfailure₂⟩

/-- Two layouts of one declaration, with a comment in the second. Both are loaded, or the key that
comes twice is rejected in both. -/
theorem parse_and_load_of_two_layouts :
    SameTokens (.ofString "@Era E \x7bx: [1], x: 2\x7d")
        (.ofString "@Era E # a comment\n\x7b x : [ 1 ] , x : 2 \x7d") ∧
      (parse (.ofString "@Era E \x7bx: [1], x: 2\x7d") .standard).root.erased =
        (parse (.ofString "@Era E # a comment\n\x7b x : [ 1 ] , x : 2 \x7d")
          .standard).root.erased ∧
      ∀ policy : DuplicatePolicy, ∃ building₁ building₂,
        loadCitizens { duplicateFields := policy, limit := some .standard }
          (.ofString "@Era E \x7bx: [1], x: 2\x7d") = .ok building₁ ∧
        loadCitizens { duplicateFields := policy, limit := some .standard }
          (.ofString "@Era E # a comment\n\x7b x : [ 1 ] , x : 2 \x7d") = .ok building₂ ∧
        ((∃ citizens, building₁.outcome = .ok citizens ∧ building₂.outcome = .ok citizens) ∨
          policy = .reject ∧ ∃ declaration key range₁ range₂,
            building₁.outcome = .error (.duplicateField declaration key range₁) ∧
              building₂.outcome = .error (.duplicateField declaration key range₂)) := by
  have htokens : SameTokens (.ofString "@Era E \x7bx: [1], x: 2\x7d")
      (.ofString "@Era E # a comment\n\x7b x : [ 1 ] , x : 2 \x7d") := by
    rw [SameTokens]
    decide +kernel
  obtain ⟨hroot, -, hload⟩ := parse_and_load_of_same_tokens _ _ .standard htokens
  refine ⟨htokens, hroot, fun policy => ?_⟩
  exact hload (by decide +kernel) (by decide +kernel) { duplicateFields := policy }

end Document

end WorldDoc
