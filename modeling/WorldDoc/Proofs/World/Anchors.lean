import WorldDoc.Proofs.World.Policies

/-!
# Anchors that resolve

The usual rules ask for an Origin and for the anchors that it lists to be core events. They decide
this exactly: a world passes if it is `Anchored`, and else the failure is that of the first thing
amiss (`Misses`). Both are said of any world, however it was put together. A world that was loaded
under the usual rules has passed them, so its text has one Origin, and whatever the Origin names as
an anchor is declared in the text as a core event and found in the world as what it is
(`standard_rules_decide_anchors`).

## Shape of the proof

The fault of a list of anchors is that of the first element that does not resolve
(`findSome?_anchorFault?_eq_some_iff`), so the rules and `Misses` go through the same cases. The
citizens of a text correspond to the declarations of a derivation of its tokens
(`exists_derivation_of_citizensBy`): they agree in kind and name, and the Origin of an accepted
world is the only citizen of that kind.
-/

namespace WorldDoc

namespace World

/-! ## Worlds that pass -/

/-- What the anchors of a world are called in messages. -/
def anchorsLabel (origin : Citizen) : String := s!"{origin.kind.word}.{Rule.coreAnchorsField}"

/-- An anchor resolves if it is an identifier and the name of a core event. -/
def Resolves (w : World) (v : Value) : Prop :=
  ∃ name, v = .identifier name ∧ name ∈ w.coreEvents.names

/-- There is an Origin, and if it has anchors they are a list in which all resolve. -/
def Anchored (w : World) : Prop :=
  ∃ origin, w.origin = some origin ∧ (origin.get? Rule.coreAnchorsField = none ∨
    ∃ anchors, origin.get? Rule.coreAnchorsField = some (.list anchors) ∧
      ∀ v ∈ anchors, w.Resolves v)

/-- What keeps a world from passing: there is no Origin, its anchors are no list, or the first of
them that does not resolve is no identifier or not declared. -/
inductive Misses (w : World) : Failure → Prop where
  | noOrigin (horigin : w.origin = none) : Misses w (.missingOrigin "OriginExists")
  | notList {origin : Citizen} {v : Value} (horigin : w.origin = some origin)
      (hfield : origin.get? Rule.coreAnchorsField = some v) (hlist : ∀ anchors, v ≠ .list anchors) :
      Misses w (.typeMismatch s!"{anchorsLabel origin} must be a list" "CoreAnchorsResolved"
        Rule.coreAnchorsField)
  | notIdentifier {origin : Citizen} {before later : List Value} {v : Value}
      (horigin : w.origin = some origin)
      (hfield : origin.get? Rule.coreAnchorsField = some (.list (before ++ v :: later)))
      (hbefore : ∀ u ∈ before, w.Resolves u) (hidentifier : ∀ name, v ≠ .identifier name) :
      Misses w (.typeMismatch s!"{anchorsLabel origin} must contain only identifiers"
        "CoreAnchorsResolved" Rule.coreAnchorsField)
  | undeclared {origin : Citizen} {before later : List Value} {name : String}
      (horigin : w.origin = some origin)
      (hfield : origin.get? Rule.coreAnchorsField =
        some (.list (before ++ .identifier name :: later)))
      (hbefore : ∀ u ∈ before, w.Resolves u) (hname : name ∉ w.coreEvents.names) :
      Misses w (.unresolvedReference "CoreAnchorsResolved" name
        s!"CoreEvent '{name}' referenced in {anchorsLabel origin} is not defined")

variable {w : World} {v : Value} {fault : AnchorFault}

/-- Nothing is wrong with an anchor exactly if it resolves. -/
theorem anchorFault?_eq_none_iff : w.anchorFault? v = none ↔ w.Resolves v := by
  cases v with
  | identifier name => simp [anchorFault?, Resolves, NameTable.contains_iff]
  | _ => simp [anchorFault?, Resolves]

/-- What is wrong with an anchor that does not resolve: it is no identifier, or not declared. -/
theorem anchorFault?_eq_some_iff : w.anchorFault? v = some fault ↔
    (fault = .notIdentifier ∧ ∀ name, v ≠ .identifier name) ∨
      ∃ name, v = .identifier name ∧ name ∉ w.coreEvents.names ∧ fault = .undeclared name := by
  cases v with
  | identifier name =>
    simp only [anchorFault?, NameTable.contains_iff]
    by_cases hname : name ∈ w.coreEvents.names <;> simp [hname, eq_comm]
  | _ => simp [anchorFault?, eq_comm]

/-- Nothing is wrong with some anchors exactly if all resolve. -/
theorem findSome?_anchorFault?_eq_none_iff {anchors : List Value} :
    anchors.findSome? w.anchorFault? = none ↔ ∀ v ∈ anchors, w.Resolves v := by
  simp only [List.findSome?_eq_none_iff, anchorFault?_eq_none_iff]

/-- The fault of a list of anchors is that of the first one that does not resolve. -/
theorem findSome?_anchorFault?_eq_some_iff {anchors : List Value} :
    anchors.findSome? w.anchorFault? = some fault ↔
      ∃ before v later, anchors = before ++ v :: later ∧ w.anchorFault? v = some fault ∧
        ∀ u ∈ before, w.Resolves u := by
  simp only [List.findSome?_eq_some_iff, anchorFault?_eq_none_iff]

/-- A world passes or misses something. -/
theorem anchored_or_misses (w : World) : w.Anchored ∨ ∃ failure, w.Misses failure := by
  cases horigin : w.origin with
  | none => exact Or.inr ⟨_, .noOrigin horigin⟩
  | some origin =>
    -- a world without the field passes; of what the field holds only a list is looked into
    cases hfield : origin.get? Rule.coreAnchorsField with
    | none => exact Or.inl ⟨origin, horigin, Or.inl hfield⟩
    | some v =>
      cases v with
      | list anchors =>
        cases hfault : anchors.findSome? w.anchorFault? with
        | none =>
          have hall := findSome?_anchorFault?_eq_none_iff.mp hfault
          exact Or.inl ⟨origin, horigin, Or.inr ⟨anchors, hfield, hall⟩⟩
        | some fault =>
          obtain ⟨before, v, later, rfl, hv, hbefore⟩ :=
            findSome?_anchorFault?_eq_some_iff.mp hfault
          rcases anchorFault?_eq_some_iff.mp hv with ⟨-, hidentifier⟩ | ⟨name, rfl, hname, -⟩
          · exact Or.inr ⟨_, .notIdentifier horigin hfield hbefore hidentifier⟩
          · exact Or.inr ⟨_, .undeclared horigin hfield hbefore hname⟩
      | _ => exact Or.inr ⟨_, .notList horigin hfield nofun⟩

end World

namespace Rule

open World

/-- The usual rules fail without an Origin, and else for the fault of its anchors. -/
theorem outcome_validate_standard (w : World) :
    (validate standard w).outcome = match w.origin with
      | none => .error (.missingOrigin "OriginExists")
      | some origin => match w.anchorsFault? coreAnchorsField with
        | none => .ok ()
        | some fault => .error
          (anchorFailure "CoreAnchorsResolved" coreAnchorsField (anchorsLabel origin) fault) := by
  cases horigin : w.origin with
  | none => simp [validate, standard, checks, check, standardOrigin, horigin]
  | some origin =>
    cases hfault : w.anchorsFault? coreAnchorsField <;>
      simp [validate, standard, checks, check, standardOrigin, standardAnchors, horigin, hfault,
        anchorsLabel]

/-- An anchored world passes the standard rules. -/
theorem outcome_validate_of_anchored {w : World} (h : w.Anchored) :
    (validate standard w).outcome = .ok () := by
  obtain ⟨origin, horigin, hfield⟩ := h
  rw [outcome_validate_standard]
  rcases hfield with hfield | ⟨anchors, hfield, hall⟩
  · simp only [anchorsFault?, horigin, hfield]
  · simp only [anchorsFault?, horigin, hfield, findSome?_anchorFault?_eq_none_iff.mpr hall]

/-- What a world misses is the failure of the standard rules. -/
theorem outcome_validate_of_misses {w : World} {failure : Failure} (h : w.Misses failure) :
    (validate standard w).outcome = .error failure := by
  rw [outcome_validate_standard]
  cases h with
  | noOrigin horigin => rw [horigin]
  | @notList origin v horigin hfield hlist =>
    simp only [anchorsFault?, horigin, hfield]
    cases v with
    | list anchors => exact absurd rfl (hlist anchors)
    | _ => rfl
  | @notIdentifier origin before later v horigin hfield hbefore hidentifier =>
    have hv : w.anchorFault? v = some .notIdentifier :=
      anchorFault?_eq_some_iff.mpr (Or.inl ⟨rfl, hidentifier⟩)
    have hfault := findSome?_anchorFault?_eq_some_iff.mpr ⟨before, v, later, rfl, hv, hbefore⟩
    simp only [anchorsFault?, horigin, hfield, hfault]
    rfl
  | @undeclared origin before later name horigin hfield hbefore hname =>
    have hv : w.anchorFault? (.identifier name) = some (.undeclared name) :=
      anchorFault?_eq_some_iff.mpr (Or.inr ⟨name, rfl, hname, rfl⟩)
    have hfault := findSome?_anchorFault?_eq_some_iff.mpr ⟨before, _, later, rfl, hv, hbefore⟩
    simp only [anchorsFault?, horigin, hfield, hfault]
    rfl

/-- A world passes the standard rules exactly if it is anchored. -/
theorem outcome_validate_eq_ok_iff {w : World} :
    (validate standard w).outcome = .ok () ↔ w.Anchored := by
  refine ⟨fun hok => ?_, outcome_validate_of_anchored⟩
  rcases w.anchored_or_misses with hanchored | ⟨failure, hmisses⟩
  · exact hanchored
  · rw [outcome_validate_of_misses hmisses] at hok
    contradiction

/-- The standard rules fail with just what the world misses. -/
theorem outcome_validate_eq_error_iff {w : World} {failure : Failure} :
    (validate standard w).outcome = .error failure ↔ w.Misses failure := by
  refine ⟨fun herror => ?_, outcome_validate_of_misses⟩
  rcases w.anchored_or_misses with hanchored | ⟨other, hmisses⟩
  · rw [outcome_validate_of_anchored hanchored] at herror
    contradiction
  · rw [outcome_validate_of_misses hmisses] at herror
    exact Except.error.inj herror ▸ hmisses

end Rule

/-! ## Worlds that were loaded -/

/-- A directive says which kind it declares. -/
theorem CitizenKind.directive_inj {k l : CitizenKind} (h : k.directive = l.directive) : k = l := by
  have hkind := ofDirective?_directive k
  rw [h, ofDirective?_directive] at hkind
  exact (Option.some.inj hkind).symm

namespace Document

variable {source : SourceText} {limit : NestingLimit} {policy : DuplicatePolicy}
  {citizens : List Citizen}

/-- Citizens that were built are those of a derivation of the tokens. -/
theorem exists_derivation_of_citizensBy
    (h : (citizensBy (.standard limit) policy source).outcome = .ok citizens) :
    ∃ d : Derivation.Document, d.Within limit.depth ∧
      d.tokens = significantTokens source.toList ∧ d.citizens? = some citizens := by
  have hclean := diagnostics_eq_nil_of_outcome_citizensBy h
  obtain ⟨d, hnesting, htokens⟩ := exists_derivation hclean
  obtain ⟨-, others, hothers⟩ := exists_citizens_of_tokens hclean htokens
  have hadmits : Admits policy d.DistinctKeys _ others :=
    admits_of_tokens hclean hnesting htokens hothers
  rw [outcome_citizensBy policy hclean, hadmits.outcome_eq_ok_iff] at h
  exact ⟨d, hnesting, htokens, h.2 ▸ hothers⟩

/-- The directives of a kind are those of the declarations of that kind. -/
theorem filter_directives_of_kind {d : Derivation.Document}
    (htokens : d.tokens = significantTokens source.toList) (kind : CitizenKind) :
    ((tokens source.toList).filter fun t => t.kind = .directive ∧ t.text = kind.directive) =
      (d.declarations.filter fun e => e.kind = kind).map fun e => e.directive.1 := by
  have hall : ((tokens source.toList).filter fun t => t.kind = .directive) =
      d.declarations.map fun e => e.directive.1 := by
    rw [← filter_directive_significantTokens, ← htokens, Derivation.filter_directive_document]
  have hkind (e : Derivation.Declaration) : e.directive.1.text = kind.directive ↔ e.kind = kind := by
    rw [e.text_directive]
    exact ⟨CitizenKind.directive_inj, congrArg _⟩
  have hsplit : ((tokens source.toList).filter fun t =>
      t.kind = .directive ∧ t.text = kind.directive) =
        ((tokens source.toList).filter fun t => t.kind = .directive).filter fun t =>
          t.text = kind.directive := by
    simp only [List.filter_filter, Bool.decide_and, Bool.and_comm]
  rw [hsplit, hall, List.filter_map]
  simp only [Function.comp_def, hkind]

/-- A world with an Origin is gathered from a text with one directive for it. -/
theorem exists_origin_directive {origin : Citizen} {d : Derivation.Document}
    (htokens : d.tokens = significantTokens source.toList) (hcitizens : d.citizens? = some citizens)
    (haccepted : World.Accepted policy citizens)
    (horigin : (World.gathered citizens).origin = some origin) :
    ∃ t, ((tokens source.toList).filter fun t =>
      t.kind = .directive ∧ t.text = CitizenKind.origin.directive) = [t] := by
  -- citizens and declarations agree in their kinds, so there are as many Origins of either
  have hkinds : citizens.map Citizen.kind = d.declarations.map fun e => e.kind := by
    simpa [Function.comp_def] using
      congrArg (List.map Prod.fst) (Derivation.kind_and_name_of_citizens hcitizens)
  have hcount : (citizens.filter fun c => c.kind = .origin).length =
      (d.declarations.filter fun e => e.kind = .origin).length := by
    have h := congrArg (List.countP fun kind => kind = CitizenKind.origin) hkinds
    rw [List.countP_map, List.countP_map, List.countP_eq_length_filter,
      List.countP_eq_length_filter] at h
    exact h
  rw [filter_directives_of_kind htokens]
  refine List.length_eq_one_iff.mp ?_
  rw [List.length_map, ← hcount, haccepted.filter_origin, horigin]
  rfl

/-- A citizen that is found under a kind and name has them, and a declaration of the text gives it
them. -/
theorem declared_of_get? {d : Derivation.Document} (hcitizens : d.citizens? = some citizens)
    {of : Collection} {name : String} {c : Citizen}
    (hget : (World.gathered citizens).get? (.member of) name = some c) :
    c.kind = .member of ∧ c.name = name ∧
      ∃ e ∈ d.declarations, e.kind = .member of ∧ e.name.text = name := by
  rw [World.get?_gathered] at hget
  obtain ⟨hmem, hboth⟩ := List.mem_filter.mp (List.mem_of_getLast? hget)
  obtain ⟨hkind, hname⟩ : c.kind = .member of ∧ c.name = name := by simpa using hboth
  have hpair : (c.kind, c.name) ∈ d.declarations.map fun e => (e.kind, e.name.text) := by
    rw [← Derivation.kind_and_name_of_citizens hcitizens]
    exact List.mem_map_of_mem hmem
  obtain ⟨e, he, heq⟩ := List.mem_map.mp hpair
  obtain ⟨hekind, hename⟩ := Prod.mk.inj heq
  exact ⟨hkind, hname, e, he, hekind.trans hkind, hename.trans hname⟩

/-- A world that was loaded under the usual rules, whatever the policies, is anchored, and so is the
text: it has one directive for the Origin, and every identifier among the anchors of the Origin is
declared as a core event, which the world has under that name. -/
theorem anchors_of_loads {limit : Option NestingLimit} {fields declarations : DuplicatePolicy}
    {w : World}
    (h : Loads { limit, duplicateFields := fields, duplicateDeclarations := declarations } source w) :
    (∃ t, ((tokens source.toList).filter fun t =>
      t.kind = .directive ∧ t.text = CitizenKind.origin.directive) = [t]) ∧
    ∃ origin, w.origin = some origin ∧ ∃ d : Derivation.Document,
      d.tokens = significantTokens source.toList ∧
      ∀ anchors, origin.get? Rule.coreAnchorsField = some (.list anchors) →
        ∀ name, .identifier name ∈ anchors →
          (∃ e ∈ d.declarations, e.kind = .member .coreEvents ∧ e.name.text = name) ∧
          ∃ c, w.get? (.member .coreEvents) name = some c ∧ c.kind = .member .coreEvents ∧
            c.name = name := by
  obtain ⟨⟨citizens, hbuilt, hassembled⟩, -, hrules⟩ := (worldOf_eq_ok_iff _).mp h
  obtain ⟨haccepted, rfl⟩ := World.assemble_eq_ok_iff.mp hassembled
  obtain ⟨d, -, htokens, hcitizens⟩ := exists_derivation_of_citizensBy hbuilt
  obtain ⟨origin, horigin, hanchors⟩ := Rule.outcome_validate_eq_ok_iff.mp (hrules rfl)
  refine ⟨exists_origin_directive htokens hcitizens haccepted horigin, origin, horigin, d, htokens,
    fun anchors hfield name hname => ?_⟩
  -- the rules have looked for the name among the core events of this very world
  obtain ⟨c, hget⟩ : ∃ c, (World.gathered citizens).get? (.member .coreEvents) name = some c := by
    rcases hanchors with hnone | ⟨listed, hlisted, hall⟩
    · rw [hfield] at hnone
      contradiction
    · rw [hfield] at hlisted
      cases hlisted
      obtain ⟨declared, heq, hdeclared⟩ := hall _ hname
      cases heq
      rw [← NameTable.contains_iff, NameTable.contains_eq_isSome_get?] at hdeclared
      exact Option.isSome_iff_exists.mp hdeclared
  obtain ⟨hkind, hname, hdeclaration⟩ := declared_of_get? hcitizens hget
  exact ⟨hdeclaration, c, hget, hkind, hname⟩

end Document

/-- The usual rules are in order. A world passes them exactly if it is anchored, and fails with what
it misses first. A text that is loaded under them, whatever the policies, has one directive for the
Origin, and every identifier among the anchors of the Origin is declared in it as a core event,
which the world has under that name. -/
theorem standard_rules_decide_anchors :
    Rule.listFault? Rule.standard = none ∧
    (∀ w, (Rule.validate Rule.standard w).outcome = .ok () ↔ w.Anchored) ∧
    (∀ w failure, (Rule.validate Rule.standard w).outcome = .error failure ↔ w.Misses failure) ∧
    ∀ source limit fields declarations w,
      Loads { limit, duplicateFields := fields, duplicateDeclarations := declarations } source w →
        (∃ t, ((tokens source.toList).filter fun t =>
          t.kind = .directive ∧ t.text = CitizenKind.origin.directive) = [t]) ∧
        ∃ origin, w.origin = some origin ∧ ∃ d : Derivation.Document,
          d.tokens = significantTokens source.toList ∧
          ∀ anchors, origin.get? Rule.coreAnchorsField = some (.list anchors) →
            ∀ name, .identifier name ∈ anchors →
              (∃ e ∈ d.declarations, e.kind = .member .coreEvents ∧ e.name.text = name) ∧
              ∃ c, w.get? (.member .coreEvents) name = some c ∧ c.kind = .member .coreEvents ∧
                c.name = name :=
  ⟨Rule.listFault?_standard, fun _ => Rule.outcome_validate_eq_ok_iff,
    fun _ _ => Rule.outcome_validate_eq_error_iff,
    fun _ _ _ _ _ => Document.anchors_of_loads⟩

/-- An event of the same name is no hindrance: the anchor is found as a core event. -/
theorem standard_rules_decide_anchors_beside_event :
    ∃ w, Loads {} (.ofString "@Event e {} @Origin o {核心锚点: [e]} @CoreEvent e {}") w ∧
      ∃ c, w.get? (.member .coreEvents) "e" = some c ∧ c.kind = .member .coreEvents ∧
        c.name = "e" := by
  obtain ⟨w, run, hrun, houtcome⟩ : ∃ w, Loads {}
      (.ofString "@Event e {} @Origin o {核心锚点: [e]} @CoreEvent e {}") w := by
    decide +kernel
  have hlisted : ((loadWorld {} (.ofString
      "@Event e {} @Origin o {核心锚点: [e]} @CoreEvent e {}")).toOption.bind fun run =>
        run.outcome.toOption.bind fun w => w.origin.bind fun origin =>
          origin.get? Rule.coreAnchorsField).any (Value.same (.list [.identifier "e"])) = true := by
    decide +kernel
  obtain ⟨-, -, -, hloads⟩ := standard_rules_decide_anchors
  obtain ⟨-, origin, horigin, d, -, hanchors⟩ :=
    hloads _ none .overwrite .overwrite w ⟨run, hrun, houtcome⟩
  simp only [hrun, Except.toOption, houtcome, horigin, Option.bind_some,
    Option.any_eq_true] at hlisted
  obtain ⟨v, hfield, hv⟩ := hlisted
  obtain ⟨later, rfl⟩ : ∃ later, v = .list (.identifier "e" :: later) := by
    rcases v with _ | _ | _ | _ | (_ | ⟨_ | _ | _ | name | _, later⟩) <;>
      simp [Value.same, Value.sameAll] at hv
    exact ⟨later, by rw [hv.1]⟩
  exact ⟨w, ⟨run, hrun, houtcome⟩, (hanchors _ hfield "e" List.mem_cons_self).2⟩

end WorldDoc
