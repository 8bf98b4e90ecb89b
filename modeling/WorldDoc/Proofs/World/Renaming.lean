import Mathlib.Data.Option.Basic
import Mathlib.Data.Set.Function
import WorldDoc.Proofs.World.Anchors

/-!
# Names written differently

What a world comes to does not depend on how its names are written, as long as those that are to be
told apart are written differently. If the names of some citizens are rewritten by a function that
is injective on the names of each kind, they are assembled as before and pass the usual rules as
before, or fail as before, in the same words about the rewritten names (`Corresponds`). The names
that an Origin lists as its anchors are looked up among the core events, so they have to stay as
they are.

## Shape of the proof

The worlds in the middle of two assemblies have the same names in each collection, up to the
rewriting, and Origins with the same anchors (`World.Renamed`). One more citizen on either side
keeps this or fails on both sides (`World.corresponds_place`), and the rules look at nothing else
(`World.Renamed.anchorsFault?_eq`).
-/

namespace WorldDoc

/-! ## Outcomes that correspond -/

/-- A failure with the names that it is about rewritten and its place moved. -/
def Failure.renamed (f : String → String) (place : Option TextRange → Option TextRange) :
    Failure → Failure
  | .duplicateField declaration key range => .duplicateField (f declaration) (f key) (place range)
  | .multipleOrigin existing duplicate => .multipleOrigin (f existing) (f duplicate)
  | .duplicateDeclaration kind name => .duplicateDeclaration kind (f name)
  | failure => failure

/-- Both outcomes are successes that are related, or the second one is the failure that `g` makes of
the first. -/
inductive Corresponds {α β : Type} (R : α → β → Prop) (g : Failure → Failure) :
    Except Failure α → Except Failure β → Prop where
  | ok {a : α} {b : β} (h : R a b) : Corresponds R g (.ok a) (.ok b)
  | error (failure : Failure) : Corresponds R g (.error failure) (.error (g failure))

namespace Corresponds

variable {α β α' β' : Type} {R : α → β → Prop} {R' : α' → β' → Prop} {g : Failure → Failure}
  {x : Except Failure α} {y : Except Failure β}

/-- Corresponding outcomes are carried on by continuations that correspond. -/
theorem bind {k : α → Except Failure α'} {k' : β → Except Failure β'} (h : Corresponds R g x y)
    (hk : ∀ a b, R a b → Corresponds R' g (k a) (k' b)) :
    Corresponds R' g (x >>= k) (y >>= k') := by
  cases h with
  | ok h => exact hk _ _ h
  | error failure => exact .error failure

end Corresponds

/-! ## What rules look at -/

/-- The name that a value is, if it is one. -/
def Value.name? : Value → Option String
  | identifier name => some name
  | _ => none

/-- The members of a list as far as they are names. -/
def Value.anchors? (v : Value) : Option (List (Option String)) := v.items?.map (List.map name?)

/-- The citizen lists a name among its anchors. -/
def Citizen.Lists (c : Citizen) (x : String) : Prop :=
  ∃ v names, c.get? Rule.coreAnchorsField = some v ∧ v.anchors? = some names ∧ some x ∈ names

/-- The second citizen is the first one with its name rewritten, and has the same anchors. -/
structure Citizen.Renamed (f : String → String) (c c' : Citizen) : Prop where
  kind : c'.kind = c.kind
  name : c'.name = f c.name
  anchors : (c'.get? Rule.coreAnchorsField).map Value.anchors? =
    (c.get? Rule.coreAnchorsField).map Value.anchors?

namespace World

/-- What is wrong with a member of a list of anchors, given the name that it is. -/
def nameFault? (w : World) : Option String → Option AnchorFault
  | some name => if w.coreEvents.contains name then none else some (.undeclared name)
  | none => some .notIdentifier

/-- What is wrong with an anchor depends on the name that it is alone. -/
theorem anchorFault?_eq_nameFault? (w : World) (v : Value) :
    w.anchorFault? v = w.nameFault? v.name? := by
  cases v <;> rfl

/-- Of the field with the anchors only the names in it matter. -/
theorem anchorsFault?_eq (w : World) (field : String) :
    w.anchorsFault? field = match w.origin with
      | none => some .noOrigin
      | some origin => match (origin.get? field).map Value.anchors? with
        | none => none
        | some none => some .notList
        | some (some names) => names.findSome? w.nameFault? := by
  rw [anchorsFault?]
  cases w.origin with
  | none => rfl
  | some origin =>
    cases hfield : origin.get? field with
    | none => simp only [hfield, Option.map_none]
    | some v =>
      cases v with
      | list anchors =>
        simp only [hfield, Option.map_some, Value.anchors?, Value.items?, List.findSome?_map]
        exact congrArg (anchors.findSome? ·) (funext w.anchorFault?_eq_nameFault?)
      | _ => simp only [hfield, Option.map_some, Value.anchors?, Value.items?, Option.map_none]

/-! ## Worlds of renamed citizens -/

/-- The worlds have Origins with the same anchors, and in each collection the same names, which are
of some kept set, up to the rewriting. -/
structure Renamed (f : String → String) (kept : Collection → Set String) (w w' : World) : Prop where
  origin : Option.Rel (Citizen.Renamed f) w.origin w'.origin
  names : ∀ of, (w'.collection of).names = (w.collection of).names.map f
  kept : ∀ of, ∀ x ∈ (w.collection of).names, x ∈ kept of

variable {f : String → String} {place : Option TextRange → Option TextRange}
  {kept : Collection → Set String} {w w' : World} {c c' : Citizen} {cs cs' : List Citizen}
  {policy : DuplicatePolicy}

namespace Renamed

/-- A rewritten name is taken exactly if the name itself was, where no other kept name is rewritten
to it. -/
theorem contains_eq (h : Renamed f kept w w') {of : Collection} {x x' : String}
    (hx : ∀ y ∈ kept of, f y = x' ↔ y = x) :
    (w'.collection of).contains x' = (w.collection of).contains x := by
  rw [Bool.eq_iff_iff, NameTable.contains_iff, NameTable.contains_iff, h.names, List.mem_map]
  constructor
  · rintro ⟨y, hy, heq⟩
    exact (hx y (h.kept of y hy)).mp heq ▸ hy
  · intro hmem
    exact ⟨x, hmem, (hx x (h.kept of x hmem)).mpr rfl⟩

/-- A citizen may be put into its collection on both sides. -/
theorem setCollection (h : Renamed f kept w w') {of : Collection} (hname : c'.name = f c.name)
    (hkept : c.name ∈ kept of)
    (hcontains : (w'.collection of).contains c'.name = (w.collection of).contains c.name) :
    Renamed f kept (w.setCollection ((w.collection of).insert c.name c) of)
      (w'.setCollection ((w'.collection of).insert c'.name c') of) where
  origin := by
    rw [origin_setCollection, origin_setCollection]
    exact h.origin
  names other := by
    by_cases hother : other = of
    · subst hother
      rw [collection_setCollection_self, collection_setCollection_self, NameTable.names_insert,
        NameTable.names_insert, hcontains, h.names]
      split
      · rfl
      · rw [List.map_append, List.map_singleton, hname]
    · rw [collection_setCollection_of_ne _ _ hother, collection_setCollection_of_ne _ _ hother,
        h.names]
  kept other x hx := by
    by_cases hother : other = of
    · subst hother
      rw [collection_setCollection_self, NameTable.mem_names_insert] at hx
      rcases hx with rfl | hx
      · exact hkept
      · exact h.kept other x hx
    · rw [collection_setCollection_of_ne _ _ hother] at hx
      exact h.kept other x hx

/-- Searches that agree on all elements find the same. -/
theorem findSome?_eq_of_eq {α β : Type} {g g' : α → Option β} {as : List α}
    (h : ∀ a ∈ as, g' a = g a) : as.findSome? g' = as.findSome? g := by
  induction as with
  | nil => rfl
  | cons a as ih =>
    rw [List.findSome?_cons, List.findSome?_cons, h a List.mem_cons_self,
      ih fun b hb => h b (List.mem_cons_of_mem _ hb)]

/-- The same is wrong with the anchors, if rewriting keeps them apart from all other names. -/
theorem anchorsFault?_eq (h : Renamed f kept w w')
    (hlisted : ∀ origin, w.origin = some origin → ∀ x, origin.Lists x →
      ∀ y ∈ kept .coreEvents, f y = x ↔ y = x) :
    w'.anchorsFault? Rule.coreAnchorsField = w.anchorsFault? Rule.coreAnchorsField := by
  have horigin := h.origin
  rw [World.anchorsFault?_eq, World.anchorsFault?_eq]
  generalize w.origin = o at horigin hlisted ⊢
  generalize w'.origin = o' at horigin ⊢
  cases horigin with
  | none => rfl
  | @some o o' hrenamed =>
    simp only [hrenamed.anchors]
    cases hfield : o.get? Rule.coreAnchorsField with
    | none => rfl
    | some v =>
      cases hanchors : v.anchors? with
      | none => simp only [Option.map_some, hanchors]
      | some names =>
        simp only [Option.map_some, hanchors]
        have hfault (name : Option String) (hname : name ∈ names) :
            w'.nameFault? name = w.nameFault? name := by
          cases name with
          | none => rfl
          | some x =>
            have hcontains : w'.coreEvents.contains x = w.coreEvents.contains x :=
              h.contains_eq (hlisted o rfl x ⟨v, names, hfield, hanchors, hname⟩)
            rw [nameFault?, nameFault?, hcontains]
        exact findSome?_eq_of_eq hfault

end Renamed

/-! ## Assembly -/

/-- One more citizen is taken on both sides, or refused. -/
theorem corresponds_place (h : Renamed f kept w w') (hc : Citizen.Renamed f c c')
    (hkept : ∀ of, c.kind = .member of → c.name ∈ kept of)
    (hinj : ∀ of, Set.InjOn f (kept of)) :
    Corresponds (Renamed f kept) (Failure.renamed f place) (World.place policy w c).outcome
      (World.place policy w' c').outcome := by
  rw [World.place, World.place, hc.kind]
  cases hkind : c.kind with
  | origin =>
    have horigin := h.origin
    generalize ho : w.origin = o at horigin
    generalize ho' : w'.origin = o' at horigin
    cases horigin with
    | none => exact .ok ⟨.some hc, h.names, h.kept⟩
    | @some o o' hrenamed =>
      simp only [hrenamed.name, hc.name]
      exact .error (.multipleOrigin o.name c.name)
  | member of =>
    have hmem := hkept of hkind
    have hcontains : (w'.collection of).contains c'.name = (w.collection of).contains c.name := by
      refine h.contains_eq fun y hy => ?_
      rw [hc.name]
      exact (hinj of).eq_iff hy hmem
    simp only [NameTable.insertUnder, hcontains]
    by_cases hreject : (w.collection of).contains c.name = true ∧ policy = .reject
    · simp only [if_pos hreject, hc.name]
      exact .error (.duplicateDeclaration _ c.name)
    · simp only [if_neg hreject, Traced.outcome_bind, Traced.outcome_logIf]
      exact .ok (h.setCollection hc.name hmem hcontains)

/-- Assembly of renamed citizens corresponds, from renamed worlds on, if no two names that are kept
become one. -/
theorem corresponds_foldlM_place (h : Renamed f kept w w')
    (hcs : List.Forall₂ (Citizen.Renamed f) cs cs')
    (hkept : ∀ c ∈ cs, ∀ of, c.kind = .member of → c.name ∈ kept of)
    (hinj : ∀ of, Set.InjOn f (kept of)) :
    Corresponds (Renamed f kept) (Failure.renamed f place)
      (cs.foldlM (World.place policy) w).outcome
      (cs'.foldlM (World.place policy) w').outcome := by
  induction hcs generalizing w w' with
  | nil => exact .ok h
  | @cons c c' cs cs' hc hcs ih =>
    obtain ⟨hfirst, hlater⟩ := List.forall_mem_cons.mp hkept
    rw [List.foldlM_cons, List.foldlM_cons, Traced.outcome_bind, Traced.outcome_bind]
    exact (corresponds_place h hc hfirst hinj).bind fun _ _ h => ih h hlater

/-- Renamed citizens are assembled as the others are, or fail as they do. -/
theorem corresponds_assemble (hcs : List.Forall₂ (Citizen.Renamed f) cs cs')
    (hkept : ∀ c ∈ cs, ∀ of, c.kind = .member of → c.name ∈ kept of)
    (hinj : ∀ of, Set.InjOn f (kept of)) :
    Corresponds (Renamed f kept) (Failure.renamed f place) (assemble policy cs).outcome
      (assemble policy cs').outcome := by
  rw [outcome_assemble, outcome_assemble]
  refine corresponds_foldlM_place ⟨.none, fun of => ?_, fun of x hx => ?_⟩ hcs hkept hinj
  · cases of <;> rfl
  · cases of <;> cases hx

/-- The Origin of an assembled world is one of the citizens. -/
theorem origin_mem_of_assemble {w : World} (h : (assemble policy cs).outcome = .ok w)
    {origin : Citizen} (horigin : w.origin = some origin) : origin ∈ cs := by
  rw [(assemble_eq_ok_iff.mp h).2] at horigin
  exact List.mem_of_find?_eq_some horigin

end World

/-! ## The usual rules -/

/-- The usual rules find the same wrong with the worlds. -/
theorem Rule.outcome_validate_renamed {f : String → String} {kept : Collection → Set String}
    {w w' : World} (h : World.Renamed f kept w w')
    (hlisted : ∀ origin, w.origin = some origin → ∀ x, origin.Lists x →
      ∀ y ∈ kept .coreEvents, f y = x ↔ y = x) :
    (validate standard w').outcome = (validate standard w).outcome := by
  rw [outcome_validate_standard, outcome_validate_standard, h.anchorsFault?_eq hlisted]
  have horigin := h.origin
  generalize w.origin = o at horigin
  generalize w'.origin = o' at horigin
  cases horigin with
  | none => rfl
  | some hrenamed => simp only [World.anchorsLabel, hrenamed.kind]

/-- What the usual rules find wrong is not about the name of a citizen. -/
theorem Rule.corresponds_validate_standard {f : String → String}
    (place : Option TextRange → Option TextRange) (w : World) :
    Corresponds Eq (Failure.renamed f place) (validate standard w).outcome
      (validate standard w).outcome := by
  rw [outcome_validate_standard]
  cases w.origin with
  | none => exact .error (.missingOrigin _)
  | some origin =>
    cases w.anchorsFault? coreAnchorsField with
    | none => exact .ok rfl
    | some fault =>
      cases fault with
      | noOrigin => exact .error (.missingOrigin _)
      | notList => exact .error (.typeMismatch _ _ _)
      | notIdentifier => exact .error (.typeMismatch _ _ _)
      | undeclared name => exact .error (.unresolvedReference _ _ _)

end WorldDoc
