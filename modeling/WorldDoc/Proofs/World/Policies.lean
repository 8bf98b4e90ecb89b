import WorldDoc.Proofs.Citizen.Building
import WorldDoc.Proofs.World.Gathering

/-!
# What the policy that rejects changes

A text may be loaded under the policy that lets later values count, or under the one that rejects
what comes twice, in fields and declarations alike. The second yields a world only where the first
does, and then the same one: it takes nothing but the texts in which a declaration has a key twice,
or two declarations have one kind and name (`loads_rejecting_iff_overwriting`). So all that such a
text declares is in its world.

## Shape of the proof

A load has three stages, and each of them is brought into a form in which the policy is part of the
condition for success and not of what is yielded: the citizens of a derivation (`Admits`), the world
gathered from citizens (`assemble_eq_ok_iff`), and the check of the rules, which knows no policy
(`Passes`). What is left is to compare the conditions (`loads_iff_of_tokens`).
-/

namespace WorldDoc

/-- A list without repetitions in some aspect has one element for each value of it. -/
theorem filter_eq_singleton_of_nodup {α β : Type} [DecidableEq β] {f : α → β} {l : List α} {a : α}
    (hnodup : (l.map f).Nodup) (ha : a ∈ l) : l.filter (fun x => f x = f a) = [a] := by
  induction l with
  | nil => exact absurd ha List.not_mem_nil
  | cons b l ih =>
    obtain ⟨hnot, hnodup⟩ := List.nodup_cons.mp hnodup
    have hother {x : α} (hx : x ∈ l) : f x ≠ f b := fun heq => hnot (heq ▸ List.mem_map_of_mem hx)
    rcases List.mem_cons.mp ha with rfl | ha
    · have hnone : l.filter (fun x => f x = f a) = [] :=
        List.filter_eq_nil_iff.mpr fun x hx => by simpa using hother hx
      rw [List.filter_cons_of_pos (by simp), hnone]
    · rw [List.filter_cons_of_neg (by simpa using (hother ha).symm), ih hnodup ha]

/-! ## Assembly -/

namespace World

variable {policy : DuplicatePolicy} {cs : List Citizen}

/-- Assembly succeeds exactly with citizens none of which is refused, and yields the world gathered
from them. -/
theorem assemble_eq_ok_iff {w : World} :
    (assemble policy cs).outcome = .ok w ↔ Accepted policy cs ∧ w = gathered cs := by
  rw [outcome_assemble]
  rcases foldlM_place policy cs (accepted_nil policy) with
    ⟨before, c, later, failure, hcs, -, hrefused, herror⟩ | ⟨haccepted, hok, -⟩
  · rw [herror]
    refine ⟨fun heq => (nomatch heq), fun ⟨haccepted, _⟩ => ?_⟩
    exact absurd hrefused (haccepted before c later failure hcs)
  · rw [hok]
    exact ⟨fun heq => ⟨haccepted, (Except.ok.inj heq).symm⟩, fun ⟨_, heq⟩ => by rw [heq]; rfl⟩

/-- Under the policy that rejects, citizens are accepted if they are accepted under the other one
and no two have one kind and name. -/
theorem accepted_reject_iff :
    Accepted .reject cs ↔ Accepted .overwrite cs ∧ (cs.map Citizen.key).Nodup := by
  induction cs using List.reverseRecOn with
  | nil => simp [accepted_nil]
  | append_singleton cs c ih =>
    have hnodup : ((cs ++ [c]).map Citizen.key).Nodup ↔
        (cs.map Citizen.key).Nodup ∧ ∀ d ∈ cs, d.key ≠ c.key := by
      simp [List.nodup_append]
    rw [accepted_concat, accepted_concat, ih, hnodup]
    constructor
    · rintro ⟨⟨hcs, hdistinct⟩, hc⟩
      refine ⟨⟨hcs, fun failure hrefused => ?_⟩, hdistinct, fun d hd hkey => ?_⟩
      · rcases hrefused with ⟨hkind, ho, horigin⟩ | ⟨hpolicy, -⟩
        · exact hc _ (.secondOrigin hkind ho horigin)
        · contradiction
      · obtain ⟨hkind, hname⟩ := Prod.mk.inj hkey
        by_cases horigin : c.kind = .origin
        · exact hc _ (.secondOrigin horigin hd (hkind.trans horigin))
        · exact hc _ (.sameName rfl horigin hd hkind hname)
    · rintro ⟨⟨hcs, hc⟩, hdistinct, hfresh⟩
      refine ⟨⟨hcs, hdistinct⟩, fun failure hrefused => ?_⟩
      rcases hrefused with ⟨hkind, ho, horigin⟩ | ⟨-, -, hd, hkind, hname⟩
      · exact hc _ (.secondOrigin hkind ho horigin)
      · exact hfresh _ hd (Prod.ext hkind hname)

/-- Citizens of different kinds or names are all in the world gathered from them. -/
theorem get?_gathered_of_mem (haccepted : Accepted policy cs) (hdistinct : (cs.map Citizen.key).Nodup)
    {c : Citizen} (hc : c ∈ cs) : (gathered cs).get? c.kind c.name = some c := by
  cases hkind : c.kind with
  | origin =>
    have hmem : c ∈ (gathered cs).origin.toList := by
      rw [← haccepted.filter_origin]
      exact List.mem_filter.mpr ⟨hc, by simpa using hkind⟩
    have horigin : (gathered cs).origin = some c := Option.mem_toList.mp hmem
    rw [World.get?, table, horigin, NameTable.get?_insert, if_pos rfl]
  | member of =>
    have hsingle := filter_eq_singleton_of_nodup hdistinct hc
    simp only [Citizen.key, Prod.mk.injEq, hkind] at hsingle
    rw [get?_gathered, hsingle]
    rfl

end World

/-! ## Citizens -/

namespace Derivation

/-- No two declarations of the document have one kind and name. -/
def Document.DistinctNames (d : Document) : Prop :=
  (d.declarations.map fun e => (e.kind, e.name.text)).Nodup

/-- The fields of a declaration without a repeated key are all in its citizen. -/
theorem get?_of_mem_fields {e : Declaration} {citizen : Citizen}
    (hcitizen : e.citizen? = some citizen) (hdistinct : e.DistinctKeys)
    {f : Field × Option (Terminal .comma)} (hf : f ∈ e.fields) :
    ∃ v, f.1.value.meaning? = some v ∧ citizen.get? f.1.key.text = some v := by
  obtain ⟨entries, hentries, rfl⟩ := Option.map_eq_some_iff.mp hcitizen
  obtain ⟨entry, hentry, hpair⟩ := mem_of_mapM_eq_some hentries hf
  obtain ⟨v, hv, rfl⟩ := Option.map_eq_some_iff.mp hpair
  have hkeys : entries.map Prod.fst = e.fields.map fun f => f.1.key.text := by
    refine map_eq_map_of_mapM_eq_some hentries fun g entry hentry => ?_
    obtain ⟨w, -, rfl⟩ := Option.map_eq_some_iff.mp hentry
    rfl
  have hsingle := filter_eq_singleton_of_nodup (f := Prod.fst) (hkeys ▸ hdistinct) hentry
  refine ⟨v, hv, ?_⟩
  rw [Citizen.get?, NameTable.get?_ofList, hsingle]
  rfl

end Derivation

/-! ## Loading -/

/-- The text is loaded as the world. -/
def Loads (settings : Settings) (source : SourceText) (w : World) : Prop :=
  ∃ run, loadWorld settings source = .ok run ∧ run.outcome = .ok w

/-- Loading yields a world exactly if there is one that the text is loaded as. -/
theorem isSome_load_iff {settings : Settings} {source : SourceText} :
    ((loadWorld settings source).toOption.bind fun run => run.outcome.toOption).isSome = true ↔
      ∃ w, Loads settings source w := by
  simp only [Loads]
  cases loadWorld settings source with
  | error e => simp [Except.toOption]
  | ok run => cases houtcome : run.outcome <;> simp [Except.toOption, houtcome]

instance (settings : Settings) (source : SourceText) : Decidable (∃ w, Loads settings source w) :=
  decidable_of_iff _ isSome_load_iff

namespace Settings

/-- The settings with the usual grammar and a limit on the nesting of lists, and with one policy for
fields and declarations. -/
def under (settings : Settings) (limit : NestingLimit) (policy : DuplicatePolicy) : Settings :=
  { settings with
    grammar := none
    limit := some limit
    duplicateFields := policy
    duplicateDeclarations := policy }

/-- Nothing is wrong with the rules, and all hold in the world, if they are to be checked. -/
def Passes (settings : Settings) (w : World) : Prop :=
  settings.ruleFault? = none ∧
    (settings.validate = true → (Rule.validate settings.chosenRules w).outcome = .ok ())

end Settings

/-- The rules are checked in the world that has been assembled, if they are to be checked. -/
theorem outcome_checked {settings : Settings} {assembling : Traced Failure World} {w : World} :
    (do let v ← assembling
        if settings.validate then Rule.validate settings.chosenRules v
        return v : Traced Failure World).outcome = .ok w ↔
      assembling.outcome = .ok w ∧
        (settings.validate = true → (Rule.validate settings.chosenRules w).outcome = .ok ()) := by
  rw [Traced.outcome_bind_eq_ok_iff]
  cases settings.validate with
  | false =>
    constructor
    · rintro ⟨v, hv, hw⟩
      obtain rfl := Except.ok.inj hw
      exact ⟨hv, nofun⟩
    · exact fun ⟨hw, _⟩ => ⟨w, hw, rfl⟩
  | true =>
    simp only [if_true, Traced.outcome_bind_eq_ok_iff, forall_const]
    constructor
    · rintro ⟨v, hv, _, hrules, hw⟩
      obtain rfl := Except.ok.inj hw
      exact ⟨hv, hrules⟩
    · exact fun ⟨hw, hrules⟩ => ⟨w, hw, (), hrules, rfl⟩

/-- A text is loaded if its citizens are built, assembled and found to keep the rules. -/
theorem worldOf_eq_ok_iff (settings : Settings) {building : Traced Failure (List Citizen)}
    {w : World} :
    (∃ run, worldOf settings building = .ok run ∧ run.outcome = .ok w) ↔
      (∃ citizens, building.outcome = .ok citizens ∧
        (World.assemble settings.duplicateDeclarations citizens).outcome = .ok w) ∧
      settings.Passes w := by
  rw [← Traced.outcome_bind_eq_ok_iff, Settings.Passes, worldOf]
  generalize building >>= _ = assembling
  cases hassembling : assembling.outcome with
  | error failure =>
    simp only [Except.ok.injEq, exists_eq_left']
    rw [outcome_checked, hassembling]
    exact ⟨fun h => (nomatch h.1), fun h => (nomatch h.1)⟩
  | ok v =>
    cases settings.ruleFault? with
    | none =>
      simp only [Except.ok.injEq, exists_eq_left']
      rw [outcome_checked, hassembling, Except.ok.injEq]
      simp only [true_and]
    | some fault => exact ⟨fun ⟨_, h, _⟩ => (nomatch h), fun h => (nomatch h.2.1)⟩

namespace Document

variable {source : SourceText} {limit : NestingLimit} {policy : DuplicatePolicy}
  {settings : Settings} {w : World}

/-- A text whose citizens could be built was parsed without diagnostics. -/
theorem diagnostics_eq_nil_of_outcome_citizensBy {citizens : List Citizen}
    (h : (citizensBy (.standard limit) policy source).outcome = .ok citizens) :
    (parse source limit).diagnostics = [] := by
  cases hdiagnostics : (parse source limit).diagnostics with
  | nil => rfl
  | cons first others =>
    rw [citizensBy, Traced.outcome_bind] at h
    simp only [Grammar.standard, outline, hdiagnostics, SyntaxErrors.ofDiagnostics?] at h
    contradiction

/-- A text is loaded under a policy exactly if its citizens can be built and assembled under it and
the world passes. -/
theorem loads_under_iff : Loads (settings.under limit policy) source w ↔
    (∃ citizens, (citizensBy (.standard limit) policy source).outcome = .ok citizens ∧
      (World.assemble policy citizens).outcome = .ok w) ∧ settings.Passes w :=
  worldOf_eq_ok_iff (settings.under limit policy)

/-- A text that is loaded was parsed without diagnostics. -/
theorem diagnostics_eq_nil_of_loads (h : Loads (settings.under limit policy) source w) :
    (parse source limit).diagnostics = [] := by
  obtain ⟨⟨citizens, hcitizens, -⟩, -⟩ := loads_under_iff.mp h
  exact diagnostics_eq_nil_of_outcome_citizensBy hcitizens

/-- The citizens of any derivation of the tokens are those that are built, unless a key is
rejected. -/
theorem admits_of_tokens {d : Derivation.Document} {citizens : List Citizen}
    (hclean : (parse source limit).diagnostics = []) (hnesting : d.Within limit.depth)
    (htokens : d.tokens = significantTokens source.toList)
    (hcitizens : d.citizens? = some citizens) :
    Admits policy d.DistinctKeys
      (Citizen.allOfOutline policy (parse source limit).sourceFile.outline) citizens := by
  obtain ⟨hlegible, -⟩ := exists_citizens_of_tokens hclean htokens
  have hroot : (parse source limit).sourceFile.outline = (d.tree source).outline := by
    rw [sourceFile_eq_tree hnesting htokens]
  exact Derivation.admits_document hlegible hcitizens (Or.inr hroot)

/-- A text without diagnostics is loaded as the world gathered from the citizens of any derivation
of its tokens. Under the policy that rejects, no declaration may have a key twice, and none of the
citizens may be refused. -/
theorem loads_iff_of_tokens {d : Derivation.Document} {citizens : List Citizen}
    (hclean : (parse source limit).diagnostics = []) (hnesting : d.Within limit.depth)
    (htokens : d.tokens = significantTokens source.toList)
    (hcitizens : d.citizens? = some citizens) :
    Loads (settings.under limit policy) source w ↔ (policy = .reject → d.DistinctKeys) ∧
      World.Accepted policy citizens ∧ w = World.gathered citizens ∧ settings.Passes w := by
  have hbuilt : Admits policy d.DistinctKeys _ citizens :=
    admits_of_tokens hclean hnesting htokens hcitizens
  simp only [loads_under_iff, outcome_citizensBy policy hclean, hbuilt.outcome_eq_ok_iff,
    World.assemble_eq_ok_iff]
  constructor
  · rintro ⟨⟨_, ⟨hdistinct, rfl⟩, haccepted, hw⟩, hpasses⟩
    exact ⟨hdistinct, haccepted, hw, hpasses⟩
  · rintro ⟨hdistinct, haccepted, hw, hpasses⟩
    exact ⟨⟨citizens, ⟨hdistinct, rfl⟩, haccepted, hw⟩, hpasses⟩

/-- What the policy that rejects loads is what the other one loads, of those texts in which no
declaration has two fields of one key and no two declarations have one kind and name. Every
declaration of such a text is in the world, and in it every field. -/
theorem loads_rejecting_iff_overwriting (settings : Settings) (source : SourceText)
    (limit : NestingLimit) :
    (∀ policy w, Loads (settings.under limit policy) source w → ∃ d : Derivation.Document,
      d.Within limit.depth ∧ d.tokens = significantTokens source.toList) ∧
    ∀ d : Derivation.Document, d.Within limit.depth →
      d.tokens = significantTokens source.toList →
        (∀ w, Loads (settings.under limit .reject) source w ↔
          Loads (settings.under limit .overwrite) source w ∧ d.DistinctKeys ∧ d.DistinctNames) ∧
        ∀ w, Loads (settings.under limit .reject) source w → ∀ e ∈ d.declarations,
          ∃ citizen, w.get? e.kind e.name.text = some citizen ∧
            ∀ f ∈ e.fields, ∃ v, f.1.value.meaning? = some v ∧
              citizen.get? f.1.key.text = some v := by
  refine ⟨fun policy w h => exists_derivation (diagnostics_eq_nil_of_loads h),
    fun d hnesting htokens => ?_⟩
  by_cases hclean : (parse source limit).diagnostics = []
  · obtain ⟨-, citizens, hcitizens⟩ := exists_citizens_of_tokens hclean htokens
    have hiff (policy : DuplicatePolicy) (w : World) :
        Loads (settings.under limit policy) source w ↔ (policy = .reject → d.DistinctKeys) ∧
          World.Accepted policy citizens ∧ w = World.gathered citizens ∧ settings.Passes w :=
      loads_iff_of_tokens hclean hnesting htokens hcitizens
    have hnames : (citizens.map Citizen.key).Nodup ↔ d.DistinctNames := by
      have hkeys : citizens.map Citizen.key = _ := Derivation.kind_and_name_of_citizens hcitizens
      rw [hkeys, Derivation.Document.DistinctNames]
    constructor
    · intro w
      simp only [hiff, World.accepted_reject_iff, hnames, forall_const, reduceCtorEq,
        false_implies, true_and]
      constructor
      · rintro ⟨hkeys, ⟨haccepted, hdistinct⟩, hw, hpasses⟩
        exact ⟨⟨haccepted, hw, hpasses⟩, hkeys, hdistinct⟩
      · rintro ⟨⟨haccepted, hw, hpasses⟩, hkeys, hdistinct⟩
        exact ⟨hkeys, ⟨haccepted, hdistinct⟩, hw, hpasses⟩
    · intro w hloads e he
      obtain ⟨hkeys, haccepted, rfl, -⟩ := (hiff .reject w).mp hloads
      obtain ⟨hoverwrite, hdistinct⟩ := World.accepted_reject_iff.mp haccepted
      obtain ⟨citizen, hmem, hcitizen⟩ := mem_of_mapM_eq_some hcitizens he
      have hget := World.get?_gathered_of_mem hoverwrite hdistinct hmem
      refine ⟨citizen, ?_, fun f hf => Derivation.get?_of_mem_fields hcitizen (hkeys rfl e he) hf⟩
      obtain ⟨entries, -, rfl⟩ := Option.map_eq_some_iff.mp hcitizen
      exact hget
  · have hnot (policy : DuplicatePolicy) (w : World) :
        ¬ Loads (settings.under limit policy) source w :=
      fun h => hclean (diagnostics_eq_nil_of_loads h)
    exact ⟨fun w => by simp [hnot], fun w h => absurd h (hnot .reject w)⟩

/-- One key stands in two declarations here and one name behind two directives, and neither is a
repetition. -/
theorem loads_rejecting_without_repetition :
    ∃ w, Loads (Settings.under {} .standard .reject)
          (.ofString "@Origin o {a: 1, b: x} @Era o {a: 1}") w ∧
      Loads (Settings.under {} .standard .overwrite)
          (.ofString "@Origin o {a: 1, b: x} @Era o {a: 1}") w ∧
        ∃ d : Derivation.Document,
          d.tokens = significantTokens "@Origin o {a: 1, b: x} @Era o {a: 1}".toList ∧
            d.DistinctKeys ∧ d.DistinctNames ∧
              ∀ e ∈ d.declarations, ∃ citizen, w.get? e.kind e.name.text = some citizen := by
  obtain ⟨w, hw⟩ : ∃ w, Loads (Settings.under {} .standard .reject)
      (.ofString "@Origin o {a: 1, b: x} @Era o {a: 1}") w := by
    decide +kernel
  obtain ⟨hderivable, hall⟩ := loads_rejecting_iff_overwriting {}
    (.ofString "@Origin o {a: 1, b: x} @Era o {a: 1}") .standard
  obtain ⟨d, hnesting, htokens⟩ := hderivable .reject w hw
  obtain ⟨hiff, hpresent⟩ := hall d hnesting htokens
  obtain ⟨hoverwriting, hkeys, hnames⟩ := (hiff w).mp hw
  refine ⟨w, hw, hoverwriting, d, htokens, hkeys, hnames, fun e he => ?_⟩
  obtain ⟨citizen, hcitizen, -⟩ := hpresent w hw e he
  exact ⟨citizen, hcitizen⟩

end Document

end WorldDoc
