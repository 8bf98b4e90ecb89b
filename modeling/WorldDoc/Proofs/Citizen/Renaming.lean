import WorldDoc.Proofs.Citizen.Exact
import WorldDoc.Proofs.World.Renaming

/-!
# Citizens of a rewritten outline

All texts of an outline may be rewritten, and its ranges moved (`Outline.rewritten`). What is built
of it are then the same citizens with their names rewritten, or the same key is rejected, with its
name rewritten and its place moved (`Citizen.corresponds_allOfOutline`). For this rewriting has to
be injective on the keys of each citizen, and to leave alone the key of the anchors and the names
that are listed there. Whether the other values mean anything once they are rewritten is not a
matter of names; it is assumed that both outlines can be built if no key is rejected.

## Shape of the proof

Of a value only the names that it lists count, and these can be read off its outline
(`Outline.anchors?_of_value?`). The entries of a rewritten declaration are thus the entries of the
declaration with their keys rewritten and the same anchors (`map_view_eq`). Where one key is the
first to come twice the other one is too.
-/

namespace WorldDoc

/-! ## Rewriting -/

namespace Outline

variable (f : String → String) (place : Option TextRange → Option TextRange)

mutual

/-- An outline with all its texts rewritten and its ranges moved. -/
def rewritten : Outline → Outline
  | node k t r cs => node k (f t) (place r) (rewrittenAll cs)

/-- Some outlines with all their texts rewritten and their ranges moved. -/
def rewrittenAll : List Outline → List Outline
  | [] => []
  | o :: os => o.rewritten :: rewrittenAll os

end

/-- Rewriting some outlines is rewriting each of them. -/
theorem rewrittenAll_eq_map (os : List Outline) : rewrittenAll f place os = os.map (rewritten f place) := by
  induction os with
  | nil => rfl
  | cons o os ih => rw [rewrittenAll, ih, List.map_cons]

/-- Rewriting keeps the kind of a node. -/
@[simp] theorem kind_rewritten (o : Outline) : (o.rewritten f place).kind = o.kind := by
  cases o
  rfl

/-- The text of a node is rewritten. -/
@[simp] theorem text_rewritten (o : Outline) : (o.rewritten f place).text = f o.text := by
  cases o
  rfl

/-- The range of a node is moved. -/
@[simp] theorem range_rewritten (o : Outline) : (o.rewritten f place).range = place o.range := by
  cases o
  rfl

/-- The children of a node are rewritten. -/
@[simp] theorem children_rewritten (o : Outline) :
    (o.rewritten f place).children = o.children.map (rewritten f place) := by
  cases o
  exact rewrittenAll_eq_map f place _

/-- The field nodes of a declaration are rewritten. -/
theorem fieldNodes_rewritten (o : Outline) :
    (o.rewritten f place).fieldNodes = o.fieldNodes.map (rewritten f place) := by
  rw [fieldNodes, fieldNodes, children_rewritten, ← List.map_tail, List.filter_map]
  simp only [Function.comp_def, kind_rewritten]

/-! ## Names in values -/

/-- The name that a node is, if it is one. -/
def name? (o : Outline) : Option String :=
  if o.kind = .node (.value .identifier) then some o.text else none

/-- The members of a list as far as they are names. -/
def anchors? (o : Outline) : Option (List (Option String)) :=
  if o.kind = .node (.value .list) then some (o.children.map name?) else none

variable {f place} {o : Outline} {v : Value} {os : List Outline} {vs : List Value}

/-- The name that a node is gets rewritten. -/
theorem name?_rewritten (o : Outline) : (o.rewritten f place).name? = o.name?.map f := by
  rw [name?, name?, kind_rewritten, text_rewritten]
  split <;> rfl

/-- The names that a node lists get rewritten. -/
theorem anchors?_rewritten (o : Outline) :
    (o.rewritten f place).anchors? = o.anchors?.map (List.map (Option.map f)) := by
  rw [anchors?, anchors?, kind_rewritten, children_rewritten]
  split
  · simp only [List.map_map, Function.comp_def, name?_rewritten, Option.map_some]
  · rfl

/-- A node is read as a list, as a name, or as something that is neither. -/
theorem value?_cases (h : o.value? = some v) :
    (∃ vs, o.kind = .node (.value .list) ∧ values? o.children = some vs ∧ v = .list vs) ∨
      (o.kind = .node (.value .identifier) ∧ v = .identifier o.text) ∨
      ∃ kind, o.kind = .node (.value kind) ∧ kind ≠ .list ∧ kind ≠ .identifier ∧
        v.items? = none ∧ v.name? = none := by
  obtain ⟨kind, text, range, children⟩ := o
  cases kind with
  | token kind => contradiction
  | node kind =>
    cases kind with
    | value kind =>
      cases kind with
      | list =>
        obtain ⟨vs, hvs, rfl⟩ := Option.map_eq_some_iff.mp h
        exact Or.inl ⟨vs, rfl, hvs, rfl⟩
      | identifier =>
        obtain rfl := Option.some.inj h
        exact Or.inr (Or.inl ⟨rfl, rfl⟩)
      | string =>
        obtain ⟨content, -, rfl⟩ := Option.map_eq_some_iff.mp h
        exact Or.inr (Or.inr ⟨.string, rfl, nofun, nofun, rfl, rfl⟩)
      | number =>
        obtain ⟨x, -, rfl⟩ := Option.map_eq_some_iff.mp h
        exact Or.inr (Or.inr ⟨.number, rfl, nofun, nofun, rfl, rfl⟩)
      | boolean =>
        obtain ⟨b, -, rfl⟩ := Option.map_eq_some_iff.mp h
        exact Or.inr (Or.inr ⟨.boolean, rfl, nofun, nofun, rfl, rfl⟩)
    | _ => contradiction

/-- The value of a node is the name that the node is, if any. -/
theorem name?_of_value? (h : o.value? = some v) : v.name? = o.name? := by
  rcases value?_cases h with ⟨vs, hkind, -, rfl⟩ | ⟨hkind, rfl⟩ | ⟨kind, hkind, -, hne, -, hname⟩
  · rw [Outline.name?, hkind]
    rfl
  · rw [Outline.name?, if_pos hkind]
    rfl
  · rw [Outline.name?, hkind, hname, if_neg (by simpa using hne)]

/-- The values of some nodes are the names that the nodes are. -/
theorem map_name?_of_values? (h : values? os = some vs) : vs.map Value.name? = os.map name? := by
  induction os generalizing vs with
  | nil =>
    obtain rfl := Option.some.inj h
    rfl
  | cons o os ih =>
    rw [values?] at h
    obtain ⟨v, hv, h⟩ := Option.bind_eq_some_iff.mp h
    obtain ⟨later, hlater, h⟩ := Option.bind_eq_some_iff.mp h
    obtain rfl := Option.some.inj h
    rw [List.map_cons, List.map_cons, name?_of_value? hv, ih hlater]

/-- The names that a value lists are those under its node. -/
theorem anchors?_of_value? (h : o.value? = some v) : v.anchors? = o.anchors? := by
  rcases value?_cases h with ⟨vs, hkind, hvs, rfl⟩ | ⟨hkind, rfl⟩ | ⟨kind, hkind, hne, -, hitems, -⟩
  · rw [Outline.anchors?, if_pos hkind, ← map_name?_of_values? hvs]
    rfl
  · rw [Outline.anchors?, hkind]
    rfl
  · rw [Outline.anchors?, hkind, Value.anchors?, hitems, if_neg (by simpa using hne)]
    rfl

end Outline

/-! ## Entries -/

open Outline (pair?)

namespace Citizen

variable {f : String → String} {place : Option TextRange → Option TextRange}
  {policy : DuplicatePolicy} {node : Outline} {nodes : List Outline}
  {kind : CitizenKind} {name : String} {entries entries' : List (String × Value)}

/-- What of an entry counts: its key and the names that its value lists. -/
def view (e : String × Value) : String × Option (List (Option String)) := (e.1, e.2.anchors?)

/-- What of an entry counts once its names are rewritten. -/
def viewBy (f : String → String) (e : String × Value) : String × Option (List (Option String)) :=
  (f e.1, e.2.anchors?.map (List.map (Option.map f)))

/-- The entry of a rewritten field has the rewritten key, and lists the rewritten names. -/
theorem view_of_pair? {o : Outline} {e e' : String × Value} (h : o.pair? = some e)
    (h' : (o.rewritten f place).pair? = some e') : view e' = viewBy f e := by
  obtain ⟨key, value, others, hchildren, -, htext, hv⟩ := pair?_eq_some_iff.mp h
  obtain ⟨key', value', others', hchildren', -, htext', hv'⟩ := pair?_eq_some_iff.mp h'
  rw [Outline.children_rewritten, hchildren] at hchildren'
  obtain ⟨hfirst, hlater⟩ := List.cons.inj hchildren'
  obtain rfl := hfirst
  obtain rfl := (List.cons.inj hlater).1
  rw [view, viewBy, ← htext', ← htext, Outline.text_rewritten, Outline.anchors?_of_value? hv',
    Outline.anchors?_of_value? hv, Outline.anchors?_rewritten]

/-- The entries of rewritten fields count for what the entries of the fields do, rewritten. -/
theorem map_view_eq (h : nodes.mapM pair? = some entries)
    (h' : (nodes.map (Outline.rewritten f place)).mapM pair? = some entries') :
    entries'.map view = entries.map (viewBy f) := by
  induction nodes generalizing entries entries' with
  | nil =>
    obtain rfl := Option.some.inj h
    obtain rfl := Option.some.inj h'
    rfl
  | cons o nodes ih =>
    obtain ⟨e, later, he, hlater, rfl⟩ := mapM_cons_eq_some h
    obtain ⟨e', later', he', hlater', rfl⟩ := mapM_cons_eq_some h'
    rw [List.map_cons, List.map_cons, view_of_pair? he he', ih hlater hlater']

/-- The keys of rewritten fields are the keys of the fields, rewritten. -/
theorem keys_eq (h : entries'.map view = entries.map (viewBy f)) :
    entries'.map Prod.fst = (entries.map Prod.fst).map f := by
  have hkeys := congrArg (List.map Prod.fst) h
  rw [List.map_map, List.map_map] at hkeys
  rw [List.map_map]
  exact hkeys

/-- What the citizens list as anchors is the same, if rewriting keeps the key of the anchors
apart. -/
theorem map_anchors?_get? {key : String} (h : entries'.map view = entries.map (viewBy f))
    (hkey : ∀ e ∈ entries, f e.1 = key ↔ e.1 = key) :
    ((NameTable.ofList entries').get? key).map Value.anchors? =
      ((NameTable.ofList entries).get? key).map fun v =>
        v.anchors?.map (List.map (Option.map f)) := by
  have hfilter := congrArg (List.filter fun e => e.1 = key) h
  rw [List.filter_map, List.filter_map] at hfilter
  have hsame : entries.filter ((fun e => decide (e.1 = key)) ∘ viewBy f) =
      entries.filter fun e => e.1 = key :=
    List.filter_congr fun e he => decide_eq_decide.mpr (hkey e he)
  rw [hsame] at hfilter
  have hlast := congrArg (fun es => (List.getLast? es).map Prod.snd) hfilter
  simp only [List.getLast?_map, Option.map_map] at hlast
  rw [NameTable.get?_ofList, NameTable.get?_ofList, Option.map_map, Option.map_map]
  exact hlast

/-! ## One declaration -/

/-- A declaration that is rewritten is headed by the name rewritten. -/
theorem heads_rewritten (h : Heads node kind name) : Heads (node.rewritten f place) kind (f name) := by
  obtain ⟨hkind, first, later, hchildren, hname, rfl⟩ := h
  refine ⟨by rw [Outline.kind_rewritten, hkind], first.rewritten f place,
    later.map (Outline.rewritten f place), ?_, ?_, Outline.text_rewritten f place first⟩
  · rw [Outline.children_rewritten, hchildren, List.map_cons]
  · rw [Outline.kind_rewritten, hname]

/-- Rewritten fields have entries that fit as well, if rewriting keeps the keys apart. -/
theorem fit_rewritten (hfit : Fit policy nodes entries)
    (hread : (nodes.map (Outline.rewritten f place)).mapM pair? = some entries')
    (hinj : Set.InjOn f {key | key ∈ entries.map Prod.fst}) :
    Fit policy (nodes.map (Outline.rewritten f place)) entries' where
  read := hread
  distinct hpolicy := by
    rw [keys_eq (map_view_eq hfit.read hread)]
    exact (hfit.distinct hpolicy).map_on fun _ hx _ hy => hinj hx hy

/-- A rewritten declaration is built as the declaration is, or the same key is rejected. -/
theorem corresponds_ofOutline (policy : DuplicatePolicy) (hheads : Heads node kind name)
    (hread : node.fieldNodes.mapM pair? = some entries)
    (hread' : (node.rewritten f place).fieldNodes.mapM pair? = some entries')
    (hinj : Set.InjOn f {key | key ∈ entries.map Prod.fst}) :
    Corresponds
      (fun c c' => c = ⟨kind, name, .ofList entries⟩ ∧ c' = ⟨kind, f name, .ofList entries'⟩)
      (Failure.renamed f place) (ofOutline policy node).outcome
      (ofOutline policy (node.rewritten f place)).outcome := by
  rw [Outline.fieldNodes_rewritten] at hread'
  rcases fit_or_stops policy name node.fieldNodes with
    ⟨es, hfit⟩ | ⟨earlier, o, later, es, failure, hsplit, hfit, hstops⟩
  · obtain rfl := Option.some.inj (hread.symm.trans hfit.read)
    have hfit' := fit_rewritten hfit hread' hinj
    rw [← Outline.fieldNodes_rewritten] at hfit'
    rw [(ofOutline_of_declares ⟨hheads, hfit⟩).1,
      (ofOutline_of_declares ⟨heads_rewritten hheads, hfit'⟩).1]
    exact .ok ⟨rfl, rfl⟩
  · have hfault := ofOutline_of_faulty (.field hheads hsplit hfit hstops)
    rw [hsplit] at hread hread'
    rw [List.map_append, List.map_cons] at hread'
    obtain ⟨before, rest, hbefore, hrest, rfl⟩ := mapM_append_eq_some hread
    obtain ⟨e, others, he, -, rfl⟩ := mapM_cons_eq_some hrest
    obtain ⟨before', rest', hbefore', hrest', -⟩ := mapM_append_eq_some hread'
    obtain ⟨⟨key', v'⟩, -, he', -, -⟩ := mapM_cons_eq_some hrest'
    obtain rfl := Option.some.inj (hbefore.symm.trans hfit.read)
    cases hstops with
    | unread h =>
      have hread := readField_of_pair? he
      rw [readField_of_fault h] at hread
      contradiction
    | @repeatedKey key v hpolicy hpair hkey =>
      have hfit' := fit_rewritten hfit hbefore' <| hinj.mono fun x hx => by
        rw [Set.mem_ofPred_eq, List.map_append]
        exact List.mem_append_left _ hx
      obtain rfl : key' = f key := congrArg Prod.fst (view_of_pair? hpair he')
      have hkey' : f key ∈ before'.map Prod.fst := by
        rw [keys_eq (map_view_eq hbefore hbefore')]
        exact List.mem_map_of_mem hkey
      have hsplit' : (node.rewritten f place).fieldNodes =
          earlier.map (Outline.rewritten f place) ++ o.rewritten f place ::
            later.map (Outline.rewritten f place) := by
        rw [Outline.fieldNodes_rewritten, hsplit, List.map_append, List.map_cons]
      rw [hfault, ofOutline_of_faulty (.field (heads_rewritten hheads) hsplit' hfit'
        (.repeatedKey hpolicy he' hkey')), Outline.range_rewritten]
      exact .error (.duplicateField name key o.range)

/-! ## Whole documents -/

/-- Rewriting keeps the keys of a citizen apart, also from that of the anchors, and leaves alone the
anchors. -/
structure KeptBy (f : String → String) (c : Citizen) : Prop where
  keys : Set.InjOn f {key | key = Rule.coreAnchorsField ∨ key ∈ c.fields.names}
  field : f Rule.coreAnchorsField = Rule.coreAnchorsField
  anchors : ∀ x, c.Lists x → f x = x

/-- A citizen of rewritten entries is the citizen renamed. -/
theorem renamed_of_map_view (hviews : entries'.map view = entries.map (viewBy f))
    (hkept : KeptBy f ⟨kind, name, .ofList entries⟩) :
    Renamed f ⟨kind, name, .ofList entries⟩ ⟨kind, f name, .ofList entries'⟩ where
  kind := rfl
  name := rfl
  anchors := by
    have hkey (e : String × Value) (he : e ∈ entries) :
        f e.1 = Rule.coreAnchorsField ↔ e.1 = Rule.coreAnchorsField := by
      have hname : e.1 ∈ (NameTable.ofList entries).names := by
        rw [NameTable.names_ofList, List.mem_eraseDups]
        exact List.mem_map_of_mem he
      conv_lhs => rw [← hkept.field]
      exact hkept.keys.eq_iff (Or.inr hname) (Or.inl rfl)
    have hanchors := map_anchors?_get? hviews hkey
    rw [Citizen.get?, Citizen.get?, hanchors]
    cases hv : (NameTable.ofList entries).get? Rule.coreAnchorsField with
    | none => rfl
    | some v =>
      cases hnames : v.anchors? with
      | none => simp only [Option.map_some, hnames, Option.map_none]
      | some names =>
        have hsame : names.map (Option.map f) = names := by
          refine (List.map_congr_left fun x? hx => ?_).trans (List.map_id names)
          cases x? with
          | none => rfl
          | some x => exact congrArg some (hkept.anchors x ⟨v, names, hv, hnames, hx⟩)
        simp only [Option.map_some, hnames, hsame]

/-- A success for a list is one for its first element and one for the others. -/
theorem exists_of_mapM_cons_eq_ok {ε α β : Type} {g : α → Except ε β} {a : α} {as : List α}
    {bs : List β} (h : (a :: as).mapM g = .ok bs) :
    ∃ b later, g a = .ok b ∧ as.mapM g = .ok later ∧ bs = b :: later := by
  rw [List.mapM_cons] at h
  cases hb : g a with
  | error e =>
    rw [hb] at h
    contradiction
  | ok b =>
    rw [hb] at h
    cases hlater : as.mapM g with
    | error e =>
      rw [hlater] at h
      contradiction
    | ok later =>
      rw [hlater] at h
      exact ⟨b, later, rfl, rfl, (Except.ok.inj h).symm⟩

section All

variable {nodes : List Outline} {cs cs' : List Citizen}

/-- The outcomes of some nodes under a policy. -/
abbrev outcomes (policy : DuplicatePolicy) (nodes : List Outline) : Except Failure (List Citizen) :=
  nodes.mapM fun n => (ofOutline policy n).outcome

/-- Nodes that can be built, rewritten or not, if no key is rejected, are built alike under either
policy. -/
theorem corresponds_outcomes (hbuilt : outcomes .overwrite nodes = .ok cs)
    (hbuilt' : outcomes .overwrite (nodes.map (Outline.rewritten f place)) = .ok cs')
    (hkept : ∀ c ∈ cs, KeptBy f c) (policy : DuplicatePolicy) :
    List.Forall₂ (Renamed f) cs cs' ∧
      Corresponds (fun ds ds' => ds = cs ∧ ds' = cs') (Failure.renamed f place)
        (outcomes policy nodes)
        (outcomes policy (nodes.map (Outline.rewritten f place))) := by
  induction nodes generalizing cs cs' with
  | nil =>
    obtain rfl := Except.ok.inj hbuilt
    obtain rfl := Except.ok.inj hbuilt'
    exact ⟨.nil, .ok ⟨rfl, rfl⟩⟩
  | cons n nodes ih =>
    obtain ⟨c, later, hc, hlater, rfl⟩ := exists_of_mapM_cons_eq_ok hbuilt
    obtain ⟨c', later', hc', hlater', rfl⟩ := exists_of_mapM_cons_eq_ok hbuilt'
    obtain ⟨hfirst, hothers⟩ := List.forall_mem_cons.mp hkept
    obtain ⟨hrenamed, hcorresponds⟩ := ih hlater hlater' hothers
    -- both nodes declare citizens, with these entries
    obtain ⟨kind, name, entries, hheads, hfit⟩ := exists_outcome_ok_iff.mp ⟨c, hc⟩
    obtain ⟨-, -, entries', -, hfit'⟩ := exists_outcome_ok_iff.mp ⟨c', hc'⟩
    have hheads' : Heads (n.rewritten f place) kind (f name) := heads_rewritten hheads
    obtain rfl := Except.ok.inj (hc.symm.trans (ofOutline_of_declares ⟨hheads, hfit⟩).1)
    obtain rfl := Except.ok.inj (hc'.symm.trans (ofOutline_of_declares ⟨hheads', hfit'⟩).1)
    have hviews : entries'.map view = entries.map (viewBy f) :=
      map_view_eq hfit.read (Outline.fieldNodes_rewritten f place n ▸ hfit'.read)
    have hinj : Set.InjOn f {key | key ∈ entries.map Prod.fst} := hfirst.keys.mono fun key hkey => by
      refine Or.inr ?_
      rwa [NameTable.names_ofList, List.mem_eraseDups]
    refine ⟨.cons (renamed_of_map_view hviews hfirst) hrenamed, ?_⟩
    rw [outcomes, outcomes, List.map_cons, List.mapM_cons, List.mapM_cons]
    refine (corresponds_ofOutline policy hheads hfit.read hfit'.read hinj).bind fun d d' hd => ?_
    refine hcorresponds.bind fun ds ds' hds => .ok ?_
    rw [hd.1, hd.2, hds.1, hds.2]
    exact ⟨rfl, rfl⟩

/-- A document and its rewriting that can be built if no key is rejected are built alike. -/
theorem corresponds_allOfOutline {root : Outline} (hroot : root.kind ≠ .node .root)
    (hbuilt : (allOfOutline .overwrite root).outcome = .ok cs)
    (hbuilt' : (allOfOutline .overwrite (root.rewritten f place)).outcome = .ok cs')
    (hkept : ∀ c ∈ cs, KeptBy f c) (policy : DuplicatePolicy) :
    List.Forall₂ (Renamed f) cs cs' ∧
      Corresponds (fun ds ds' => ds = cs ∧ ds' = cs') (Failure.renamed f place)
        (allOfOutline policy root).outcome
        (allOfOutline policy (root.rewritten f place)).outcome := by
  have hunwraps : Unwraps root root := .self hroot
  have hunwraps' : Unwraps (root.rewritten f place) (root.rewritten f place) :=
    .self (by rwa [Outline.kind_rewritten])
  have hnodes : ((root.rewritten f place).children.filter fun n => n.kind.isDeclaration) =
      (root.children.filter fun n => n.kind.isDeclaration).map (Outline.rewritten f place) := by
    rw [Outline.children_rewritten, List.filter_map]
    simp only [Function.comp_def, Outline.kind_rewritten]
  rw [outcome_allOfOutline hunwraps] at hbuilt
  rw [outcome_allOfOutline hunwraps', hnodes] at hbuilt'
  rw [outcome_allOfOutline hunwraps, outcome_allOfOutline hunwraps', hnodes]
  exact corresponds_outcomes hbuilt hbuilt' hkept policy

end All

end Citizen

end WorldDoc
