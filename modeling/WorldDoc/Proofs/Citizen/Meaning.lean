import WorldDoc.Proofs.Log
import WorldDoc.Proofs.NameTable
import WorldDoc.Proofs.Parse.Derivation
import WorldDoc.Proofs.Value.Literal
import WorldDoc.Proofs.Value.Nested
import WorldDoc.Citizen.Outline

/-!
# What a derivation declares

A derivation can be read without its tree: the values of its fields are what their tokens write
(`Derivation.Value.meaning?`), its citizens have the kinds, names and fields of its declarations
(`Derivation.Document.citizens?`). There is no meaning only where a literal has none.

The citizens that are built from the tree of a derivation are these (`builds_document`). The only
thing that can keep them from being built is a key that comes twice in a declaration, under the
policy that rejects it (`admits_document`).

## Shape of the proof

Building looks at the outline of a tree, which leaves out the tokens: between its brackets a list
has its values and nothing else, a declaration has its name and its fields. The texts it reads are
slices of the source. So all that has to be known about the tokens is that the slice at their range
is their own text (`Legible`).
-/

namespace WorldDoc

/-- The slice of the source at each token's range is the text of the token. -/
def Legible (source : SourceText) (ts : List Token) : Prop :=
  ∀ t ∈ ts, source.slice t.range = String.ofList t.text

namespace Derivation

/-! ## Meaning -/

mutual

/-- The value that a derivation writes. -/
def Value.meaning? : Value → Option WorldDoc.Value
  | .scalar token kind _ => WorldDoc.Value.ofLiteral? kind token.text
  | .list _ items _ => items.meanings?.map .list

/-- The values that the items of a list write. -/
def Items.meanings? : Items → Option (List WorldDoc.Value)
  | .none => some []
  | .last value => value.meaning?.map fun v => [v]
  | .more value _ later => do return (← value.meaning?) :: (← later.meanings?)

end

/-- The text of a name. -/
def Name.text (n : Name) : String := String.ofList n.1.text

/-- The key and the value of a field. -/
def Field.pair? (f : Field) : Option (String × WorldDoc.Value) :=
  f.value.meaning?.map fun v => (f.key.text, v)

/-- The citizen of a declaration: a key that comes again keeps its first place and its last
value. -/
def Declaration.citizen? (d : Declaration) : Option Citizen :=
  (d.fields.mapM fun f => Field.pair? f.1).map fun entries =>
    ⟨d.kind, d.name.text, .ofList entries⟩

/-- The citizens of a document. -/
def Document.citizens? (d : Document) : Option (List Citizen) :=
  d.declarations.mapM Declaration.citizen?

/-- No two fields of the declaration have the same key. -/
def Declaration.DistinctKeys (d : Declaration) : Prop :=
  (d.fields.map fun f => f.1.key.text).Nodup

/-- No declaration of the document has two fields with the same key. -/
def Document.DistinctKeys (d : Document) : Prop :=
  ∀ declaration ∈ d.declarations, declaration.DistinctKeys

end Derivation

/-! ## Outlines of trees -/

namespace SyntaxTree

/-- An outline has the kind of its element. -/
theorem outline_kind (t : SyntaxTree) : t.outline.kind = t.kind := by
  cases t <;> rfl

/-- The outlines of two rows are those of the first and then those of the second. -/
theorem outlineNodes_append (ts us : List SyntaxTree) :
    outlineNodes (ts ++ us) = outlineNodes ts ++ outlineNodes us := by
  induction ts with
  | nil => rfl
  | cons t ts ih =>
    rw [List.cons_append, outlineNodes, outlineNodes, ih]
    split <;> rfl

end SyntaxTree

namespace Derivation

open SyntaxTree (outlineNodes outlineNodes_append outline_kind)

variable {source : SourceText}

/-- Leaves have no outlines. -/
theorem outlineNodes_leaf (t : Token) (ts : List SyntaxTree) :
    outlineNodes (leaf source t :: ts) = outlineNodes ts := rfl

/-- Nodes have outlines of their own. -/
theorem outlineNodes_nodeOver (kind : NodeKind) (elements ts : List SyntaxTree) :
    outlineNodes (nodeOver source kind elements :: ts) =
      (nodeOver source kind elements).outline :: outlineNodes ts := rfl

/-- A node has the kind that it is made of. -/
theorem kind_nodeOver (kind : NodeKind) (elements : List SyntaxTree) :
    (nodeOver source kind elements).kind = .node kind := rfl

/-- The children of a node's outline are the outlines of its elements. -/
theorem children_outline_nodeOver (kind : NodeKind) (elements : List SyntaxTree) :
    (nodeOver source kind elements).outline.children = outlineNodes elements := rfl

/-- A node over a single token has the text of that token. -/
theorem text_outline_single {t : Token} (kind : NodeKind)
    (h : source.slice t.range = String.ofList t.text) :
    (nodeOver source kind [leaf source t]).outline.text = String.ofList t.text := by
  have hcover : t.range.cover t.range = t.range := by
    ext <;> simp
  show source.slice (t.range.cover t.range) = String.ofList t.text
  rw [hcover, h]

/-! ## Values -/

/-- A value stands under its declaration as a node of the kind of value it is. -/
theorem outlineNodes_value (v : Value) (ts : List SyntaxTree) :
    outlineNodes (v.tree source :: ts) = (v.tree source).outline :: outlineNodes ts := by
  cases v <;> rfl

/-- A single value has no items. -/
theorem items?_scalar {token : Token} {kind : ValueKind}
    (writes : ValueKind.ofToken? token.kind = some kind) :
    ((Value.scalar token kind writes).tree source).outline.items? = none := by
  have hne : kind ≠ .list := by
    rintro rfl
    cases h : token.kind <;> simp [h, ValueKind.ofToken?] at writes
  rw [Outline.items?, outline_kind, Value.tree, kind_nodeOver, if_neg (by simpa using hne)]

/-- The items of a list are the outlines of those of its derivation. -/
theorem items?_list (opening : Terminal .lbracket) (items : Items) (closing : Terminal .rbracket) :
    ((Value.list opening items closing).tree source).outline.items? =
      some (outlineNodes (items.trees source)) := by
  have hnodes : outlineNodes (items.trees source ++ [leaf source closing.1]) =
      outlineNodes (items.trees source) := by
    rw [outlineNodes_append]
    exact List.append_nil _
  show some (outlineNodes (items.trees source ++ [leaf source closing.1])) = _
  rw [hnodes]

/-- A single value is read as what its token writes. -/
theorem ofScalar?_outline {kind : ValueKind} {o : Outline} {text : List Char}
    (hkind : o.kind = .node (.value kind)) (htext : o.text = String.ofList text) :
    WorldDoc.Value.ofScalar? o = WorldDoc.Value.ofLiteral? kind text := by
  rw [WorldDoc.Value.ofScalar?, hkind, htext]
  cases kind <;> simp [WorldDoc.Value.ofLiteral?]

mutual

/-- The value built from the tree of a derivation is the value that the derivation writes. -/
theorem ofOutline_value : (v : Value) → {w : WorldDoc.Value} → Legible source v.tokens →
    v.meaning? = some w → WorldDoc.Value.ofOutline (v.tree source).outline = .ok w
  | .scalar token kind writes, w, hlegible, hmeaning => by
      have htext := text_outline_single (.value kind)
        (hlegible token (List.mem_singleton.mpr rfl))
      rw [WorldDoc.Value.ofOutline, Nesting.convert_single _ _ (items?_scalar writes),
        WorldDoc.Value.ofScalar]
      rw [Value.tree, ofScalar?_outline rfl htext]
      rw [Value.meaning?] at hmeaning
      rw [hmeaning]
  | .list opening items closing, w, hlegible, hmeaning => by
      obtain ⟨ws, hws, rfl⟩ := Option.map_eq_some_iff.mp hmeaning
      have hitems :=
        mapM_ofOutline_items items (fun t ht => hlegible t (by simp [Value.tokens, ht]))
        hws
      rw [WorldDoc.Value.ofOutline, Nesting.convert_list _ _ (items?_list opening items closing)]
      exact congrArg (· >>= fun ws => .ok (WorldDoc.Value.list ws)) hitems

/-- The values built from the items of a list are those that the items write. -/
theorem mapM_ofOutline_items : (is : Items) → {ws : List WorldDoc.Value} →
    Legible source is.tokens → is.meanings? = some ws →
    (outlineNodes (is.trees source)).mapM WorldDoc.Value.ofOutline = .ok ws
  | .none, ws, _, hmeaning => by
      obtain rfl := Option.some.inj hmeaning
      rfl
  | .last v, ws, hlegible, hmeaning => by
      obtain ⟨w, hw, rfl⟩ := Option.map_eq_some_iff.mp hmeaning
      rw [Items.trees, outlineNodes_value, List.mapM_cons, ofOutline_value v hlegible hw]
      rfl
  | .more v comma later, ws, hlegible, hmeaning => by
      rw [Items.meanings?] at hmeaning
      obtain ⟨w, hw, hmeaning⟩ := Option.bind_eq_some_iff.mp hmeaning
      obtain ⟨vs, hvs, hmeaning⟩ := Option.bind_eq_some_iff.mp hmeaning
      obtain rfl := Option.some.inj hmeaning
      have hvalue := ofOutline_value v (fun t ht => hlegible t (by simp [Items.tokens, ht])) hw
      have hlater := mapM_ofOutline_items later
        (fun t ht => hlegible t (by simp [Items.tokens, ht])) hvs
      rw [Items.trees, outlineNodes_value, outlineNodes_leaf, List.mapM_cons, hvalue, hlater]
      rfl

end

/-! ## Fields -/

/-- A field node is read as the key and the value of the field. -/
theorem readField_outline {f : Field} {entry : String × WorldDoc.Value}
    (hlegible : Legible source f.tokens) (hentry : f.pair? = some entry) :
    Citizen.readField (f.tree source).outline = .ok entry := by
  obtain ⟨w, hw, rfl⟩ := Option.map_eq_some_iff.mp hentry
  have hkey := text_outline_single .fieldKey (hlegible f.key.1 List.mem_cons_self)
  have hvalue := ofOutline_value f.value
    (fun t ht => hlegible t (by simp [Field.tokens, ht])) hw
  have hchildren : (f.tree source).outline.children =
      [(nodeOver source .fieldKey [leaf source f.key.1]).outline,
        (f.value.tree source).outline] := by
    rw [Field.tree, children_outline_nodeOver, outlineNodes_nodeOver, outlineNodes_leaf,
      outlineNodes_value]
    rfl
  rw [Citizen.readField, hchildren]
  simp only [outline_kind, kind_nodeOver]
  rw [if_neg (by simp), hkey, hvalue]
  rfl

end Derivation

/-! ## Citizens -/

/-- `Builds policy x a`: the outcome of `x` is `a`, or else a key came twice where the policy
rejects that. -/
def Builds {α : Type} (policy : DuplicatePolicy) (x : Traced Failure α) (a : α) : Prop :=
  x.outcome = .ok a ∨ policy = .reject ∧ ∃ declaration key range,
    x.outcome = .error (.duplicateField declaration key range)

/-- `Admits policy distinct x a`: the outcome of `x` is `a` if the keys are `distinct`, and also if
they are not where the policy overwrites. Where it rejects the outcome is then a key that came
twice. -/
inductive Admits {α : Type} (policy : DuplicatePolicy) (distinct : Prop) (x : Traced Failure α)
    (a : α) : Prop
  | ok (h : policy = .reject → distinct) (houtcome : x.outcome = .ok a)
  | error (hpolicy : policy = .reject) (h : ¬ distinct)
    (houtcome : ∃ declaration key range,
      x.outcome = .error (.duplicateField declaration key range))

namespace Admits

variable {α β : Type} {policy : DuplicatePolicy} {P Q : Prop} {x : Traced Failure α} {a : α}

/-- What succeeds under any policy asks for nothing. -/
theorem of_outcome (h : x.outcome = .ok a) : Admits policy True x a :=
  .ok (fun _ => trivial) h

/-- Conditions that say the same may take each other's place. -/
theorem congr (h : Admits policy P x a) (hiff : P ↔ Q) : Admits policy Q x a :=
  propext hiff ▸ h

/-- A sequence asks for what both of its parts ask for. -/
theorem bind {f : α → Traced Failure β} {b : β} (hx : Admits policy P x a)
    (hf : Admits policy Q (f a) b) : Admits policy (P ∧ Q) (x >>= f) b := by
  cases hx with
  | error hpolicy hnot herror =>
    obtain ⟨declaration, key, range, herror⟩ := herror
    exact .error hpolicy (fun h => hnot h.1)
      ⟨declaration, key, range, Traced.outcome_bind_error f herror⟩
  | ok hP hok =>
    have houtcome := Traced.outcome_bind_ok f hok
    cases hf with
    | ok hQ hfok => exact .ok (fun hpolicy => ⟨hP hpolicy, hQ hpolicy⟩) (houtcome.trans hfok)
    | error hpolicy hnot herror =>
      exact .error hpolicy (fun h => hnot h.2) (by rwa [houtcome])

/-- What admits a result builds it. -/
theorem builds (h : Admits policy P x a) : Builds policy x a := by
  cases h with
  | ok _ hok => exact Or.inl hok
  | error hpolicy _ herror => exact Or.inr ⟨hpolicy, herror⟩

/-- It is the result, and only if what is asked for holds, or the policy overwrites. -/
theorem outcome_eq_ok_iff (h : Admits policy P x a) {b : α} :
    x.outcome = .ok b ↔ (policy = .reject → P) ∧ b = a := by
  cases h with
  | ok hP hok =>
    rw [hok]
    exact ⟨fun heq => ⟨hP, (Except.ok.inj heq).symm⟩, fun ⟨_, heq⟩ => by rw [heq]⟩
  | error hpolicy hnot herror =>
    obtain ⟨declaration, key, range, herror⟩ := herror
    rw [herror]
    exact ⟨fun heq => (nomatch heq), fun ⟨hP, _⟩ => absurd (hP hpolicy) hnot⟩

end Admits

namespace Builds

variable {α β : Type} {policy : DuplicatePolicy} {x : Traced Failure α} {a : α}

/-- Under the policy that overwrites there is always an outcome. -/
theorem outcome_of_overwrite (h : Builds .overwrite x a) : x.outcome = .ok a := by
  rcases h with hok | ⟨hpolicy, -⟩
  · exact hok
  · contradiction

/-- A success can only be what is to be built. -/
theorem eq_of_ok {b : α} (h : Builds policy x a) (hb : x.outcome = .ok b) : b = a := by
  rcases h with hok | ⟨-, declaration, key, range, herror⟩
  · rw [hok] at hb
    exact (Except.ok.inj hb).symm
  · rw [herror] at hb
    contradiction

/-- What keeps something from being built is a key that comes twice. -/
theorem eq_duplicateField_of_error {failure : Failure} (h : Builds policy x a)
    (hfailure : x.outcome = .error failure) :
    policy = .reject ∧
      ∃ declaration key range, failure = .duplicateField declaration key range := by
  rcases h with hok | ⟨hpolicy, declaration, key, range, herror⟩
  · rw [hok] at hfailure
    contradiction
  · rw [herror] at hfailure
    exact ⟨hpolicy, declaration, key, range, (Except.error.inj hfailure).symm⟩

end Builds

namespace Derivation

open SyntaxTree (outlineNodes outlineNodes_append outline_kind)

variable {source : SourceText} {policy : DuplicatePolicy}

/-- The outline of a field is a field. -/
theorem kind_outline_field (f : Field) : (f.tree source).outline.kind = .node .field := rfl

/-- The outline of a declaration has the kind of what it declares. -/
theorem kind_outline_declaration (d : Declaration) :
    (d.tree source).outline.kind = .node (.declaration d.kind) := rfl

/-- A field adds its entry to the fields so far. -/
theorem admits_addChild {f : Field} {entry : String × WorldDoc.Value}
    (hlegible : Legible source f.tokens) (hentry : f.pair? = some entry) (kind : CitizenKind)
    (name : String) (fields : NameTable WorldDoc.Value) :
    Admits policy (f.key.text ∉ fields.names)
      (Citizen.addChild policy kind name fields (f.tree source).outline)
      (fields.insert entry.1 entry.2) := by
  have hread := readField_outline hlegible hentry
  obtain ⟨value, -, rfl⟩ := Option.map_eq_some_iff.mp hentry
  rw [Citizen.addChild, if_neg (by simp [kind_outline_field]), hread]
  refine (Admits.bind (.of_outcome (Traced.outcome_ofExcept _)) ?_).congr (by rw [true_and])
  by_cases hcontains : fields.contains f.key.text = true ∧ policy = .reject
  · have hmem := NameTable.contains_iff.mp hcontains.1
    refine .error hcontains.2 (not_not_intro hmem)
      ⟨name, f.key.text, (f.tree source).outline.range, ?_⟩
    simp only [NameTable.insertUnder, if_pos hcontains]
    rfl
  · refine .ok (fun hpolicy hmem => hcontains ⟨NameTable.contains_iff.mpr hmem, hpolicy⟩) ?_
    simp only [NameTable.insertUnder, if_neg hcontains]
    exact Traced.outcome_bind_ok _ (Traced.outcome_logIf _ _)

/-- The fields of a declaration add their entries one after the other. -/
theorem admits_addChildren (fs : List (Field × Option (Terminal .comma)))
    {entries : List (String × WorldDoc.Value)}
    (hlegible : ∀ f ∈ fs, Legible source (Field.tokens f.1))
    (hentries : fs.mapM (fun f => Field.pair? f.1) = some entries) (kind : CitizenKind)
    (name : String) (fields : NameTable WorldDoc.Value) :
    Admits policy
      ((fs.map fun f => f.1.key.text).Nodup ∧ ∀ f ∈ fs, f.1.key.text ∉ fields.names)
      ((fs.map fun f => (Field.tree source f.1).outline).foldlM (Citizen.addChild policy kind name)
        fields)
      (entries.foldl (fun t e => t.insert e.1 e.2) fields) := by
  induction fs generalizing entries fields with
  | nil =>
    obtain rfl := Option.some.inj hentries
    exact (Admits.of_outcome rfl).congr (by simp)
  | cons f fs ih =>
    rw [List.mapM_cons] at hentries
    obtain ⟨entry, hentry, hentries⟩ := Option.bind_eq_some_iff.mp hentries
    obtain ⟨later, hlater, hentries⟩ := Option.bind_eq_some_iff.mp hentries
    obtain rfl := Option.some.inj hentries
    have hkey : entry.1 = f.1.key.text := by
      obtain ⟨value, -, rfl⟩ := Option.map_eq_some_iff.mp hentry
      rfl
    rw [List.map_cons, List.map_cons, List.foldlM_cons, List.foldl_cons]
    refine ((admits_addChild (hlegible f List.mem_cons_self) hentry kind name fields).bind
      (ih (fun g hg => hlegible g (List.mem_cons_of_mem _ hg)) hlater _)).congr ?_
    simp only [NameTable.mem_names_insert, hkey, List.nodup_cons, List.mem_map,
      List.forall_mem_cons, not_or]
    grind

/-- The commas behind the fields leave no trace in an outline. -/
theorem outlineNodes_fieldTrees (fs : List (Field × Option (Terminal .comma))) :
    outlineNodes (fs.flatMap (fieldTrees source)) =
      fs.map fun f => (Field.tree source f.1).outline := by
  induction fs with
  | nil => rfl
  | cons f fs ih =>
    obtain ⟨f, comma⟩ := f
    have hfield : outlineNodes (fieldTrees source (f, comma)) = [(f.tree source).outline] := by
      cases comma <;> rfl
    rw [List.flatMap_cons, outlineNodes_append, hfield, ih]
    rfl

/-- The citizen built from the tree of a declaration is the one that it declares. -/
theorem admits_declaration {d : Declaration} {citizen : Citizen}
    (hlegible : Legible source d.tokens) (hcitizen : d.citizen? = some citizen) :
    Admits policy d.DistinctKeys (Citizen.ofOutline policy (d.tree source).outline) citizen := by
  obtain ⟨entries, hentries, rfl⟩ := Option.map_eq_some_iff.mp hcitizen
  have hname := text_outline_single .name (hlegible d.name.1 (by simp [Declaration.tokens]))
  have hchildren : (d.tree source).outline.children =
      (nodeOver source .name [leaf source d.name.1]).outline ::
        d.fields.map fun f => (Field.tree source f.1).outline := by
    rw [Declaration.tree, children_outline_nodeOver, outlineNodes_leaf, outlineNodes_nodeOver,
      outlineNodes_leaf, outlineNodes_append, outlineNodes_fieldTrees]
    exact congrArg _ (List.append_nil _)
  have hfields (f : Field × Option (Terminal .comma)) (hf : f ∈ d.fields) :
      Legible source (Field.tokens f.1) := by
    intro t ht
    refine hlegible t ?_
    have hmem : t ∈ d.fields.flatMap fieldTokens :=
      List.mem_flatMap.mpr ⟨f, hf, List.mem_append_left _ ht⟩
    simp [Declaration.tokens, hmem]
  rw [Citizen.ofOutline, kind_outline_declaration, hchildren]
  simp only [outline_kind, kind_nodeOver]
  rw [if_neg (by simp), hname]
  refine ((admits_addChildren d.fields hfields hentries _ _ _).bind
    (.of_outcome (Traced.outcome_bind_ok _ (Traced.outcome_log _)))).congr ?_
  rw [and_true, Declaration.DistinctKeys]
  exact and_iff_left fun f _ => List.not_mem_nil

/-- The citizens built from the trees of some declarations are those that they declare. -/
theorem admits_ofNodes (ds : List Declaration) {citizens : List Citizen}
    (hlegible : ∀ d ∈ ds, Legible source d.tokens)
    (hcitizens : ds.mapM Declaration.citizen? = some citizens) :
    Admits policy (∀ d ∈ ds, d.DistinctKeys)
      (Citizen.ofNodes policy (ds.map fun d => (d.tree source).outline)) citizens := by
  induction ds generalizing citizens with
  | nil =>
    obtain rfl := Option.some.inj hcitizens
    exact (Admits.of_outcome rfl).congr (by simp)
  | cons d ds ih =>
    rw [List.mapM_cons] at hcitizens
    obtain ⟨citizen, hcitizen, hcitizens⟩ := Option.bind_eq_some_iff.mp hcitizens
    obtain ⟨later, hlater, hcitizens⟩ := Option.bind_eq_some_iff.mp hcitizens
    obtain rfl := Option.some.inj hcitizens
    have hdeclaration : (SyntaxKind.node (.declaration d.kind)).isDeclaration = true := rfl
    rw [List.map_cons, Citizen.ofNodes, kind_outline_declaration, if_pos hdeclaration]
    refine ((admits_declaration (hlegible d List.mem_cons_self) hcitizen).bind
      ((ih (fun e he => hlegible e (List.mem_cons_of_mem _ he)) hlater).bind
        (.of_outcome rfl))).congr ?_
    rw [and_true, List.forall_mem_cons]

/-- Each declaration has an outline. -/
theorem outlineNodes_declarations (ds : List Declaration) :
    outlineNodes (ds.map (Declaration.tree source)) =
      ds.map fun d => (d.tree source).outline := by
  induction ds with
  | nil => rfl
  | cons d ds ih =>
    rw [List.map_cons, List.map_cons, Declaration.tree, outlineNodes_nodeOver, ← Declaration.tree,
      ih]

/-- The citizens built from the tree of a document, with or without the root above it, are those
that the document declares. -/
theorem admits_document {d : Document} {citizens : List Citizen}
    (hlegible : Legible source d.tokens) (hcitizens : d.citizens? = some citizens) {root : Outline}
    (hroot : root = (nodeOver source .root [d.tree source]).outline ∨
      root = (d.tree source).outline) :
    Admits policy d.DistinctKeys (Citizen.allOfOutline policy root) citizens := by
  have hdeclarations (e : Declaration) (he : e ∈ d.declarations) : Legible source e.tokens :=
    fun t ht => hlegible t (List.mem_flatMap.mpr ⟨e, he, ht⟩)
  have hunwrap : Citizen.unwrapRoot root = .ok (d.tree source).outline := by
    rcases hroot with rfl | rfl <;> rfl
  rw [Citizen.allOfOutline, hunwrap]
  refine (Admits.bind (.of_outcome (Traced.outcome_ofExcept _)) ?_).congr (by rw [true_and])
  rw [Document.tree, children_outline_nodeOver, outlineNodes_declarations]
  exact ((admits_ofNodes d.declarations hdeclarations hcitizens).bind
    (.of_outcome (Traced.outcome_bind_ok _ (Traced.outcome_log _)))).congr
      (by rw [and_true, Document.DistinctKeys])

/-- A document builds the citizens that its derivation writes, from the root or from the node under
it. -/
theorem builds_document {d : Document} {citizens : List Citizen}
    (hlegible : Legible source d.tokens) (hcitizens : d.citizens? = some citizens) {root : Outline}
    (hroot : root = (nodeOver source .root [d.tree source]).outline ∨
      root = (d.tree source).outline) :
    Builds policy (Citizen.allOfOutline policy root) citizens :=
  (admits_document hlegible hcitizens hroot).builds

end Derivation

end WorldDoc
