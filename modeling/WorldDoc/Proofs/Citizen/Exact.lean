import Mathlib.Data.List.Nodup
import WorldDoc.Citizen.Outline
import WorldDoc.Proofs.Log
import WorldDoc.Proofs.NameTable
import WorldDoc.Proofs.Value.Outline

/-!
# Citizens of any tree

A tree that somebody has put together by hand may be no declaration, or lack what a declaration has
to have. When a citizen is built of it, and what else comes of it, can be said for every tree
without building anything: a declaration `Declares` a citizen of a kind and name with certain
entries, or it is `Faulty`, and then the failure is that of the first thing amiss, from the kind of
the node to the first of its fields that does not fit behind the others (`builds_exactly_declared`).
What is neither the name nor a field of the declaration, or stands behind the value of a field, does
not count.

## Shape of the proof

Every node declares a citizen or is faulty (`declares_or_faulty`), so it is enough to compute the
outcome in either case. A field is read as its entry or fails by itself (`readField_of_pair?`,
`readField_of_fault`), the fields go one after the other into the table of the entries before them
(`foldlM_addChild`), and a field that stops this ends the whole.
-/

namespace WorldDoc

/-- Whether an event records that a later field took the place of an earlier one. -/
def LogEvent.isFieldOverwriting : LogEvent → Bool
  | .fieldOverwritten _ _ _ => true
  | _ => false

/-! ## What a node declares -/

namespace Outline

/-- The fields of a declaration: the children behind the first that are fields. -/
def fieldNodes (node : Outline) : List Outline :=
  node.children.tail.filter fun c => c.kind = .node .field

/-- The key and the value of a field, if its first two children are a key and a node that has a
value. -/
def pair? (f : Outline) : Option (String × Value) :=
  match f.children with
  | key :: value :: _ =>
    if key.kind = .node .fieldKey then value.value?.map fun v => (key.text, v) else none
  | _ => none

end Outline

open Outline (pair?)

/-- The node is a declaration of a kind and its first child is a name. -/
structure Heads (node : Outline) (kind : CitizenKind) (name : String) : Prop where
  declaration : node.kind = .node (.declaration kind)
  named : ∃ first later, node.children = first :: later ∧ first.kind = .node .name ∧
    first.text = name

/-- The fields have these entries. No key comes twice where the policy rejects that. -/
structure Fit (policy : DuplicatePolicy) (fields : List Outline)
    (entries : List (String × Value)) : Prop where
  read : fields.mapM pair? = some entries
  distinct : policy = .reject → (entries.map Prod.fst).Nodup

/-- What keeps a field from having an entry: its first child is no key, there is none behind it, or
the one behind it has no value. -/
inductive FieldFault (f : Outline) : Failure → Prop where
  | missingKey (h : ∀ key later, f.children = key :: later → key.kind ≠ .node .fieldKey) :
    FieldFault f (.structural .missingFieldKey f.range)
  | missingValue {key : Outline} (hchildren : f.children = [key])
    (hkey : key.kind = .node .fieldKey) :
    FieldFault f (.structural .missingFieldValue f.range)
  | noValue {key value n : Outline} {others : List Outline}
    (hchildren : f.children = key :: value :: others) (hkey : key.kind = .node .fieldKey)
    (hn : value.singles.find? (·.value?.isNone) = some n) :
    FieldFault f (.valueType n.kind.label n.text n.range)

/-- `Stops policy name entries f failure`: in the declaration of `name`, and behind fields with
these entries, the field `f` fails. -/
inductive Stops (policy : DuplicatePolicy) (name : String) (entries : List (String × Value))
    (f : Outline) : Failure → Prop where
  | unread {failure : Failure} (h : FieldFault f failure) : Stops policy name entries f failure
  | repeatedKey {key : String} {v : Value} (hpolicy : policy = .reject)
    (hpair : f.pair? = some (key, v)) (hkey : key ∈ entries.map Prod.fst) :
    Stops policy name entries f (.duplicateField name key f.range)

/-- The node declares a citizen of the kind and name, and its fields have these entries. -/
structure Declares (policy : DuplicatePolicy) (node : Outline) (kind : CitizenKind) (name : String)
    (entries : List (String × Value)) : Prop where
  heads : Heads node kind name
  fit : Fit policy node.fieldNodes entries

/-- What keeps a node from declaring a citizen: it is no declaration, or it has no name, or behind
fields that fit it has one that does not. -/
inductive Faulty (policy : DuplicatePolicy) (node : Outline) : Failure → Prop where
  | notDeclaration (h : ∀ kind, node.kind ≠ .node (.declaration kind)) :
    Faulty policy node (.structural (.notDeclaration node.kind) node.range)
  | missingName {kind : CitizenKind} (hkind : node.kind = .node (.declaration kind))
    (h : ∀ first later, node.children = first :: later → first.kind ≠ .node .name) :
    Faulty policy node (.structural .missingName node.range)
  | field {kind : CitizenKind} {name : String} {before later : List Outline} {f : Outline}
    {entries : List (String × Value)} {failure : Failure} (hheads : Heads node kind name)
    (hfields : node.fieldNodes = before ++ f :: later) (hbefore : Fit policy before entries)
    (hf : Stops policy name entries f failure) : Faulty policy node failure

/-! ## One field -/

/-- A value is read, or the failure is that of the first node without one. -/
theorem Value.read_cases (o : Outline) :
    (∃ v, o.value? = some v ∧ o.singles.find? (·.value?.isNone) = none ∧ ofOutline o = .ok v) ∨
      ∃ n, o.value? = none ∧ o.singles.find? (·.value?.isNone) = some n ∧
        ofOutline o = .error (scalarFailure n) := by
  have hmeets := meets_ofOutline o
  generalize ofOutline o = outcome at hmeets ⊢
  generalize o.value? = value at hmeets ⊢
  generalize o.singles.find? (·.value?.isNone) = fault at hmeets ⊢
  cases hmeets with
  | value v => exact Or.inl ⟨v, rfl, rfl, rfl⟩
  | failure n => exact Or.inr ⟨n, rfl, rfl, rfl⟩

namespace Citizen

variable {policy : DuplicatePolicy} {kind : CitizenKind} {name key : String} {v : Value}
  {f : Outline} {fields : NameTable Value} {before entries : List (String × Value)}
  {failure : Failure}

/-- A field has an entry if its first two children are a key and a node with a value, whatever
follows. -/
theorem pair?_eq_some_iff {e : String × Value} : f.pair? = some e ↔
    ∃ key value others, f.children = key :: value :: others ∧ key.kind = .node .fieldKey ∧
      key.text = e.1 ∧ value.value? = some e.2 := by
  rw [pair?]
  constructor
  · intro h
    split at h
    · rename_i key value others hchildren
      split at h
      · rename_i hkey
        obtain ⟨v, hv, rfl⟩ := Option.map_eq_some_iff.mp h
        exact ⟨key, value, others, hchildren, hkey, rfl, hv⟩
      · contradiction
    · contradiction
  · rintro ⟨key, value, others, hchildren, hkey, htext, hv⟩
    simp only [hchildren, if_pos hkey, hv, htext]
    rfl

/-- A field with an entry is read as that entry. -/
theorem readField_of_pair? {e : String × Value} (h : f.pair? = some e) :
    readField f = .ok e := by
  obtain ⟨key, value, others, hchildren, hkey, htext, hv⟩ := pair?_eq_some_iff.mp h
  rcases Value.read_cases value with ⟨w, hw, -, hread⟩ | ⟨n, hnone, -⟩
  · rw [hv] at hw
    rw [readField, hchildren]
    simp only [hkey, ne_eq, not_true_eq_false, if_false, hread, htext]
    cases hw
    rfl
  · rw [hv] at hnone
    contradiction

/-- A field with a fault is read as that failure. -/
theorem readField_of_fault (h : FieldFault f failure) : readField f = .error failure := by
  cases h with
  | missingKey h =>
    rw [readField]
    cases hchildren : f.children with
    | nil => rfl
    | cons key later => exact if_pos (h key later hchildren)
  | missingValue hchildren hkey =>
    rw [readField, hchildren]
    exact if_neg (not_not_intro hkey)
  | @noValue key value n others hchildren hkey hn =>
    rcases Value.read_cases value with ⟨v, -, hnone, -⟩ | ⟨m, -, hm, hread⟩
    · rw [hn] at hnone
      contradiction
    · obtain rfl := Option.some.inj (hm.symm.trans hn)
      rw [readField, hchildren]
      simp only [hkey, ne_eq, not_true_eq_false, if_false, hread]
      rfl

/-- A field has an entry, or there is something that keeps it from having one. -/
theorem pair_or_fault (f : Outline) :
    (∃ e, f.pair? = some e) ∨ ∃ failure, FieldFault f failure := by
  cases hchildren : f.children with
  | nil => exact Or.inr ⟨_, .missingKey (by simp [hchildren])⟩
  | cons key later =>
    by_cases hkey : key.kind = .node .fieldKey
    · cases later with
      | nil => exact Or.inr ⟨_, .missingValue hchildren hkey⟩
      | cons value others =>
        rcases Value.read_cases value with ⟨v, hv, -⟩ | ⟨n, -, hn, -⟩
        · exact Or.inl ⟨(key.text, v), pair?_eq_some_iff.mpr
            ⟨key, value, others, hchildren, hkey, rfl, hv⟩⟩
        · exact Or.inr ⟨_, .noValue hchildren hkey hn⟩
    · refine Or.inr ⟨_, .missingKey fun first others h => ?_⟩
      rw [hchildren] at h
      exact (List.cons.inj h).1 ▸ hkey

/-! ## One more field -/

/-- A child that is no field is ignored. -/
theorem addChild_of_kind_ne (h : f.kind ≠ .node .field) (fields : NameTable Value) :
    addChild policy kind name fields f = pure fields :=
  if_pos h

/-- A field with an entry is put under its key, or refused if the key is taken and may not come
twice. -/
theorem addChild_of_pair? (hfield : f.kind = .node .field) (hpair : f.pair? = some (key, v)) :
    addChild policy kind name fields f = match fields.insertUnder policy key v with
      | none => Traced.fail (.duplicateField name key f.range)
      | some insertion => do
        Traced.logIf insertion.replaced (.fieldOverwritten kind name key)
        return insertion.table := by
  rw [addChild, if_neg (not_not_intro hfield), readField_of_pair? hpair]
  rfl

/-- A field with an entry puts it behind those before it, unless its key is rejected. The table
grows by one, or it is recorded that another value has given way. -/
theorem addChild_of_admitted (kind : CitizenKind) (name : String)
    (hfield : f.kind = .node .field) (hpair : f.pair? = some (key, v))
    (hkey : policy = .reject → key ∉ before.map Prod.fst) :
    (addChild policy kind name (.ofList before) f).outcome = .ok (.ofList (before ++ [(key, v)])) ∧
      (NameTable.ofList (before ++ [(key, v)])).size +
          (addChild policy kind name (.ofList before) f).events.countP LogEvent.isFieldOverwriting =
        (NameTable.ofList before).size + 1 := by
  have hadmitted : ¬ ((NameTable.ofList before).contains key = true ∧ policy = .reject) :=
    fun h => hkey h.2 (NameTable.contains_ofList.mp h.1)
  rw [addChild_of_pair? hfield hpair, NameTable.insertUnder, if_neg hadmitted,
    NameTable.ofList_concat, NameTable.size_insert]
  cases (NameTable.ofList before).contains key <;> exact ⟨rfl, rfl⟩

/-- A field that fails ends the whole. -/
theorem addChild_of_stops (hfield : f.kind = .node .field)
    (h : Stops policy name before f failure) :
    (addChild policy kind name (.ofList before) f).outcome = .error failure := by
  cases h with
  | unread h =>
    rw [addChild, if_neg (not_not_intro hfield), readField_of_fault h]
    rfl
  | @repeatedKey key v hpolicy hpair hkey =>
    have hrejected : (NameTable.ofList before).contains key = true ∧ policy = .reject :=
      ⟨NameTable.contains_ofList.mpr hkey, hpolicy⟩
    rw [addChild_of_pair? hfield hpair, NameTable.insertUnder, if_pos hrejected]
    rfl

/-! ## All fields -/

/-- Only the fields among the children of a declaration count. -/
theorem foldlM_addChild_filter (children : List Outline) (fields : NameTable Value) :
    children.foldlM (addChild policy kind name) fields =
      (children.filter fun c => c.kind = .node .field).foldlM (addChild policy kind name) fields := by
  induction children generalizing fields with
  | nil => rfl
  | cons c children ih =>
    by_cases hfield : c.kind = .node .field
    · rw [List.filter_cons_of_pos (by simpa using hfield), List.foldlM_cons, List.foldlM_cons]
      exact bind_congr ih
    · rw [List.filter_cons_of_neg (by simpa using hfield), List.foldlM_cons,
        addChild_of_kind_ne hfield, pure_bind, ih]

/-- Fields that fit go one after the other into the table, which grows by one with each or has a
value replaced, and then that is recorded. -/
theorem foldlM_addChild {nodes : List Outline} (hnodes : ∀ f ∈ nodes, f.kind = .node .field)
    (hread : nodes.mapM pair? = some entries)
    (hdistinct : policy = .reject → ((before ++ entries).map Prod.fst).Nodup) :
    (nodes.foldlM (addChild policy kind name) (.ofList before)).outcome =
        .ok (.ofList (before ++ entries)) ∧
      (NameTable.ofList (before ++ entries)).size +
          (nodes.foldlM (addChild policy kind name) (.ofList before)).events.countP
            LogEvent.isFieldOverwriting =
        (NameTable.ofList before).size + nodes.length := by
  induction nodes generalizing before entries with
  | nil =>
    rw [List.mapM_nil] at hread
    obtain rfl := Option.some.inj hread
    rw [List.append_nil]
    exact ⟨rfl, rfl⟩
  | cons f nodes ih =>
    -- the first field goes behind the entries in `before`, and the others behind those with it
    rw [List.mapM_cons] at hread
    obtain ⟨⟨key, v⟩, hpair, hread⟩ := Option.bind_eq_some_iff.mp hread
    obtain ⟨later, hlater, hread⟩ := Option.bind_eq_some_iff.mp hread
    obtain rfl := Option.some.inj hread
    obtain ⟨hfield, hnodes⟩ := List.forall_mem_cons.mp hnodes
    have happend : before ++ (key, v) :: later = before ++ [(key, v)] ++ later := by simp
    have hkey : policy = .reject → key ∉ before.map Prod.fst := fun hpolicy hmem => by
      have hnodup := hdistinct hpolicy
      rw [List.map_append, List.nodup_append] at hnodup
      exact hnodup.2.2 key hmem key List.mem_cons_self rfl
    obtain ⟨hok, hgrown⟩ := addChild_of_admitted kind name hfield hpair hkey
    rw [happend] at hdistinct ⊢
    obtain ⟨houtcome, hsize⟩ := ih hnodes hlater hdistinct
    rw [List.foldlM_cons, Traced.outcome_bind_ok _ hok, Traced.events_bind_ok _ hok,
      List.countP_append, List.length_cons]
    exact ⟨houtcome, by omega⟩

/-- A field that fails behind fields that fit ends the whole. -/
theorem foldlM_addChild_of_stops {nodes earlier later : List Outline}
    (hnodes : ∀ f ∈ nodes, f.kind = .node .field) (hsplit : nodes = earlier ++ f :: later)
    (hearlier : Fit policy earlier entries) (hf : Stops policy name entries f failure) :
    (nodes.foldlM (addChild policy kind name) .empty).outcome = .error failure := by
  subst hsplit
  obtain ⟨hfirst, hlast⟩ := List.forall_mem_append.mp hnodes
  have hok : (earlier.foldlM (addChild policy kind name) (.ofList [])).outcome =
      .ok (.ofList entries) := (foldlM_addChild hfirst hearlier.read hearlier.distinct).1
  have hstop : (addChild policy kind name (.ofList entries) f).outcome = .error failure :=
    addChild_of_stops (hlast f List.mem_cons_self) hf
  rw [List.foldlM_append]
  refine (Traced.outcome_bind_ok _ hok).trans ?_
  rw [List.foldlM_cons]
  exact Traced.outcome_bind_error _ hstop

/-! ## Any fields -/

/-- All fields fit, or there is a first one that does not. -/
theorem fit_or_stops (policy : DuplicatePolicy) (name : String) (nodes : List Outline) :
    (∃ entries, Fit policy nodes entries) ∨
      ∃ earlier f later entries failure, nodes = earlier ++ f :: later ∧
        Fit policy earlier entries ∧ Stops policy name entries f failure := by
  induction nodes using List.reverseRecOn with
  | nil => exact Or.inl ⟨[], rfl, fun _ => List.nodup_nil⟩
  | append_singleton nodes f ih =>
    rcases ih with ⟨entries, hfit⟩ | ⟨earlier, g, later, entries, failure, rfl, hfit, hstops⟩
    · -- the fields before the last one fit: it depends on the last one
      rcases pair_or_fault f with ⟨⟨key, v⟩, hpair⟩ | ⟨failure, hfault⟩
      · by_cases hrejected : policy = .reject ∧ key ∈ entries.map Prod.fst
        · exact Or.inr ⟨nodes, f, [], entries, _, rfl, hfit,
            .repeatedKey hrejected.1 hpair hrejected.2⟩
        · refine Or.inl ⟨entries ++ [(key, v)], ?_, fun hpolicy => ?_⟩
          · rw [List.mapM_append, hfit.read, List.mapM_cons, hpair]
            rfl
          · have hfresh : key ∉ entries.map Prod.fst := fun hmem => hrejected ⟨hpolicy, hmem⟩
            rw [List.map_append, List.map_singleton, ← List.concat_eq_append]
            exact (hfit.distinct hpolicy).concat hfresh
      · exact Or.inr ⟨nodes, f, [], entries, failure, rfl, hfit, .unread hfault⟩
    · exact Or.inr ⟨earlier, g, later ++ [f], entries, failure, by simp, hfit, hstops⟩

/-! ## Declarations -/

/-- The field nodes of a declaration are fields. -/
theorem kind_of_mem_fieldNodes {node : Outline} : ∀ f ∈ node.fieldNodes, f.kind = .node .field :=
  fun _ hf => of_decide_eq_true (List.mem_filter.mp hf).2

/-- A declaration with a name is built from its fields. -/
theorem ofOutline_of_heads {node : Outline} (h : Heads node kind name) :
    ofOutline policy node = (do
      let fields ← node.fieldNodes.foldlM (addChild policy kind name) .empty
      Traced.log (.citizenBuilt kind name fields.size)
      return ⟨kind, name, fields⟩) := by
  obtain ⟨hkind, first, later, hchildren, hname, rfl⟩ := h
  rw [ofOutline, hkind]
  simp only [hchildren, hname, ne_eq, not_true_eq_false, if_false]
  rw [foldlM_addChild_filter, Outline.fieldNodes, hchildren]
  rfl

section Node

variable {node : Outline}

/-- A node that declares a citizen is built as that. As many fields as do not come to stand in it
have been recorded as overwritten. -/
theorem ofOutline_of_declares (h : Declares policy node kind name entries) :
    (ofOutline policy node).outcome = .ok ⟨kind, name, .ofList entries⟩ ∧
      node.fieldNodes.length = (NameTable.ofList entries).size +
        (ofOutline policy node).events.countP LogEvent.isFieldOverwriting := by
  obtain ⟨hheads, hfit⟩ := h
  obtain ⟨hok, hcount⟩ : (node.fieldNodes.foldlM (addChild policy kind name) (.ofList [])).outcome =
      .ok (.ofList entries) ∧ (NameTable.ofList entries).size + (node.fieldNodes.foldlM
        (addChild policy kind name) (.ofList [])).events.countP LogEvent.isFieldOverwriting =
        (NameTable.ofList []).size + node.fieldNodes.length :=
    foldlM_addChild kind_of_mem_fieldNodes hfit.read hfit.distinct
  have hevents : (ofOutline policy node).events = (node.fieldNodes.foldlM
      (addChild policy kind name) (.ofList [])).events ++
        [.citizenBuilt kind name (NameTable.ofList entries).size] := by
    rw [ofOutline_of_heads hheads]
    exact Traced.events_bind_ok _ hok
  have hempty : (NameTable.ofList ([] : List (String × Value))).size = 0 := rfl
  rw [hempty, Nat.zero_add] at hcount
  rw [hevents, List.countP_append, ← hcount, ofOutline_of_heads hheads]
  exact ⟨Traced.outcome_bind_ok _ hok, rfl⟩

/-- A node that is faulty fails with what is amiss. -/
theorem ofOutline_of_faulty (h : Faulty policy node failure) :
    (ofOutline policy node).outcome = .error failure := by
  cases h with
  | notDeclaration h =>
    rw [ofOutline]
    split
    · rename_i kind hkind
      exact absurd hkind (h kind)
    · rfl
  | missingName hkind h =>
    rw [ofOutline, hkind]
    cases hchildren : node.children with
    | nil => rfl
    | cons first later => simp only [ne_eq, h first later hchildren, not_false_eq_true, if_true]; rfl
  | field hheads hfields hbefore hf =>
    rw [ofOutline_of_heads hheads]
    exact Traced.outcome_bind_error _
      (foldlM_addChild_of_stops kind_of_mem_fieldNodes hfields hbefore hf)

/-- Every node declares a citizen, or there is something that keeps it from that. -/
theorem declares_or_faulty (policy : DuplicatePolicy) (node : Outline) :
    (∃ kind name entries, Declares policy node kind name entries) ∨
      ∃ failure, Faulty policy node failure := by
  by_cases hkind : ∃ kind, node.kind = .node (.declaration kind)
  · obtain ⟨kind, hkind⟩ := hkind
    by_cases hname : ∃ first later, node.children = first :: later ∧ first.kind = .node .name
    · obtain ⟨first, later, hchildren, hname⟩ := hname
      have hheads : Heads node kind first.text := ⟨hkind, first, later, hchildren, hname, rfl⟩
      rcases fit_or_stops policy first.text node.fieldNodes with
        ⟨entries, hfit⟩ | ⟨before, f, later, entries, failure, hfields, hfit, hstops⟩
      · exact Or.inl ⟨kind, first.text, entries, hheads, hfit⟩
      · exact Or.inr ⟨failure, .field hheads hfields hfit hstops⟩
    · exact Or.inr ⟨_, .missingName hkind fun first later hchildren hfirst =>
        hname ⟨first, later, hchildren, hfirst⟩⟩
  · exact Or.inr ⟨_, .notDeclaration fun kind h => hkind ⟨kind, h⟩⟩

/-- A citizen is built of a node exactly if the node declares one. -/
theorem exists_outcome_ok_iff : (∃ c, (ofOutline policy node).outcome = .ok c) ↔
    ∃ kind name entries, Declares policy node kind name entries := by
  constructor
  · rintro ⟨c, hok⟩
    rcases declares_or_faulty policy node with hdeclares | ⟨failure, hfaulty⟩
    · exact hdeclares
    · rw [ofOutline_of_faulty hfaulty] at hok
      contradiction
  · rintro ⟨kind, name, entries, hdeclares⟩
    exact ⟨_, (ofOutline_of_declares hdeclares).1⟩

/-- The failure of a node is what keeps it from declaring a citizen. -/
theorem outcome_eq_error_iff :
    (ofOutline policy node).outcome = .error failure ↔ Faulty policy node failure := by
  refine ⟨fun herror => ?_, ofOutline_of_faulty⟩
  rcases declares_or_faulty policy node with ⟨kind, name, entries, hdeclares⟩ | ⟨other, hfaulty⟩
  · rw [(ofOutline_of_declares hdeclares).1] at herror
    contradiction
  · rw [ofOutline_of_faulty hfaulty] at herror
    exact Except.error.inj herror ▸ hfaulty

end Node

end Citizen

/-! ## What does not count -/

namespace Outline

/-- A field without what stands behind its first two children. -/
def trimField : Outline → Outline
  | node kind text range children => node kind text range (children.take 2)

/-- A declaration with its first child and its fields alone, and nothing behind their values. -/
def trimmed : Outline → Outline
  | node kind text range [] => node kind text range []
  | node kind text range (first :: later) =>
    node kind text range (first :: (later.filter fun c => c.kind = .node .field).map trimField)

end Outline

namespace Citizen

/-- A field is read from its first two children alone. -/
theorem readField_trimField (f : Outline) : readField f.trimField = readField f := by
  obtain ⟨kind, text, range, _ | ⟨key, _ | ⟨value, others⟩⟩⟩ := f <;> rfl

/-- A field is added for what its first two children are. -/
theorem addChild_trimField (policy : DuplicatePolicy) (kind : CitizenKind) (name : String)
    (fields : NameTable Value) (f : Outline) :
    addChild policy kind name fields f.trimField = addChild policy kind name fields f := by
  rw [addChild, addChild, readField_trimField]
  cases f
  rfl

/-- A citizen is built from the first child of its node and the fields alone. -/
theorem ofOutline_trimmed (policy : DuplicatePolicy) (node : Outline) :
    ofOutline policy node.trimmed = ofOutline policy node := by
  obtain ⟨kind, text, range, _ | ⟨first, later⟩⟩ := node
  · rfl
  · have hfold (kind : CitizenKind) (name : String) (fields : NameTable Value) :
        ((later.filter fun c => c.kind = .node .field).map Outline.trimField).foldlM
          (addChild policy kind name) fields = later.foldlM (addChild policy kind name) fields := by
      rw [List.foldlM_map, foldlM_addChild_filter later]
      simp only [addChild_trimField]
    cases kind with
    | token kind => rfl
    | node kind =>
      cases kind with
      | declaration kind =>
        show (if first.kind ≠ .node .name then _ else _ >>= _) = _
        rw [hfold]
        rfl
      | _ => rfl

/-! ## Documents -/

/-- The node over the declarations of a document: the node itself, or the first such node under it
if it is a root. -/
inductive Unwraps (root : Outline) : Outline → Prop where
  | self (h : root.kind ≠ .node .root) : Unwraps root root
  | child {file : Outline} (h : root.kind = .node .root)
    (hfile : root.children.find? (fun c => c.kind = .node .sourceFile) = some file) :
    Unwraps root file

/-- The citizens of some nodes are those of the declarations among them, in order. -/
theorem outcome_ofNodes (policy : DuplicatePolicy) (nodes : List Outline) :
    (ofNodes policy nodes).outcome = (nodes.filter fun n => n.kind.isDeclaration).mapM
      fun n => (ofOutline policy n).outcome := by
  induction nodes with
  | nil => rfl
  | cons n nodes ih =>
    rw [ofNodes]
    by_cases hdeclaration : n.kind.isDeclaration = true
    · have hfilter : ((n :: nodes).filter fun n => n.kind.isDeclaration) =
          n :: nodes.filter fun n => n.kind.isDeclaration := List.filter_cons_of_pos hdeclaration
      rw [if_pos hdeclaration, hfilter, List.mapM_cons, ← ih]
      simp only [Traced.outcome_bind]
      rfl
    · have hfilter : ((n :: nodes).filter fun n => n.kind.isDeclaration) =
          nodes.filter fun n => n.kind.isDeclaration := List.filter_cons_of_neg hdeclaration
      rw [if_neg hdeclaration, hfilter, ← ih, Traced.outcome_bind]
      rfl

/-- The citizens of a tree are those of the declarations under the node over them. -/
theorem outcome_allOfOutline {policy : DuplicatePolicy} {root file : Outline}
    (h : Unwraps root file) :
    (allOfOutline policy root).outcome = (file.children.filter fun n => n.kind.isDeclaration).mapM
      fun n => (ofOutline policy n).outcome := by
  have hunwrap : unwrapRoot root = .ok file := by
    cases h with
    | self h => exact if_neg h
    | child h hfile => rw [unwrapRoot, if_pos h, hfile]
  rw [allOfOutline, hunwrap, ← outcome_ofNodes]
  simp only [Traced.outcome_bind]
  exact bind_pure (ofNodes policy file.children).outcome

/-- A root that has no node over declarations fails for that. -/
theorem outcome_allOfOutline_of_missing {policy : DuplicatePolicy} {root : Outline}
    (h : root.kind = .node .root) (hmissing : ∀ c ∈ root.children, c.kind ≠ .node .sourceFile) :
    (allOfOutline policy root).outcome = .error (.structural .missingSourceFile root.range) := by
  have hnone : root.children.find? (fun c => c.kind = .node .sourceFile) = none :=
    List.find?_eq_none.mpr fun c hc => by simpa using hmissing c hc
  rw [allOfOutline, unwrapRoot, if_pos h, hnone]
  rfl

/-! ## Any tree -/

/-- A node is built exactly if it declares a citizen: as one of that kind and name, whose fields are
the entries of the declaration, each key at its first place and with its last value; every field
beyond these has been recorded as overwritten. Otherwise the failure is that of the first thing
amiss. Nothing counts but the name, the fields, and in each field what is first and second. The
declarations of a document are built in order, up to the first that fails, and a root needs a node
over them. -/
theorem builds_exactly_declared (policy : DuplicatePolicy) :
    (∀ node, (∃ c, (ofOutline policy node).outcome = .ok c) ↔
      ∃ kind name entries, Declares policy node kind name entries) ∧
    (∀ node c, (ofOutline policy node).outcome = .ok c → ∃ entries,
      Declares policy node c.kind c.name entries ∧
      c.fields.names = (entries.map Prod.fst).eraseDups ∧
      (∀ key, c.get? key = ((entries.filter fun e => e.1 = key).getLast?).map Prod.snd) ∧
      node.fieldNodes.length = c.fields.size +
        (ofOutline policy node).events.countP LogEvent.isFieldOverwriting) ∧
    (∀ node failure, (ofOutline policy node).outcome = .error failure ↔
      Faulty policy node failure) ∧
    (∀ node, ofOutline policy node.trimmed = ofOutline policy node) ∧
    (∀ root file, Unwraps root file → (allOfOutline policy root).outcome =
      (file.children.filter fun n => n.kind.isDeclaration).mapM
        fun n => (ofOutline policy n).outcome) ∧
    ∀ root : Outline, root.kind = .node .root →
      (∀ c ∈ root.children, c.kind ≠ .node .sourceFile) →
        (allOfOutline policy root).outcome = .error (.structural .missingSourceFile root.range) := by
  refine ⟨fun _ => exists_outcome_ok_iff, fun node c hc => ?_, fun _ _ => outcome_eq_error_iff,
    ofOutline_trimmed policy, fun _ _ => outcome_allOfOutline,
    fun _ => outcome_allOfOutline_of_missing⟩
  obtain ⟨kind, name, entries, hdeclares⟩ := exists_outcome_ok_iff.mp ⟨c, hc⟩
  obtain ⟨hbuilt, hcount⟩ := ofOutline_of_declares hdeclares
  obtain rfl := Except.ok.inj (hc.symm.trans hbuilt)
  exact ⟨entries, hdeclares, NameTable.names_ofList entries, NameTable.get?_ofList entries, hcount⟩

/-- An Era put together by hand: something that is no field stands among its fields, and two of them
have one key. -/
def patchedEra : Outline :=
  let word (kind : NodeKind) (text : String) : Outline := .node (.node kind) text none []
  .node (.node (.declaration (.member .eras))) "" none
    [word .name "E",
      .node (.node .field) "" none [word .fieldKey "x", word (.value .boolean) "true"],
      word .error "?",
      .node (.node .field) "" none
        [word .fieldKey "x", word (.value .identifier) "y", word .name "z"]]

/-- The later of the two fields counts, or is rejected, and the rest of the tree does not count. -/
theorem outcome_patchedEra :
    (∃ c, (ofOutline .overwrite patchedEra).outcome = .ok c ∧ c.fields.names = ["x"] ∧
      c.get? "x" = some (.identifier "y")) ∧
    (ofOutline .reject patchedEra).outcome = .error (.duplicateField "E" "x" none) ∧
    (allOfOutline .reject (.node (.node .root) "" none [])).outcome =
      .error (.structural .missingSourceFile none) ∧
    (allOfOutline .overwrite (.node (.node .root) "" none
      [.node (.node .sourceFile) "" none [patchedEra]])).outcome =
        [patchedEra].mapM fun n => (ofOutline .overwrite n).outcome := by
  obtain ⟨hbuilds, hholds, -, -, hunwraps, -⟩ := builds_exactly_declared .overwrite
  obtain ⟨-, -, hfails, -, -, hmissing⟩ := builds_exactly_declared .reject
  have hheads : Heads patchedEra (.member .eras) "E" := ⟨rfl, _, _, rfl, rfl, rfl⟩
  have hdeclares : Declares .overwrite patchedEra (.member .eras) "E"
      [("x", .boolean true), ("x", .identifier "y")] := ⟨hheads, rfl, nofun⟩
  obtain ⟨c, hc⟩ := (hbuilds patchedEra).mpr ⟨_, _, _, hdeclares⟩
  obtain ⟨entries, ⟨-, hread, -⟩, hnames, hget, -⟩ := hholds patchedEra c hc
  obtain rfl := Option.some.inj (hread.symm.trans hdeclares.fit.read)
  refine ⟨⟨c, hc, hnames.trans (by decide), (hget "x").trans (by rfl)⟩, ?_,
    hmissing _ rfl (by simp [Outline.children]), ?_⟩
  · have hfields : patchedEra.fieldNodes =
        patchedEra.fieldNodes.take 1 ++ patchedEra.fieldNodes[1] :: [] := rfl
    have hbefore : Fit .reject (patchedEra.fieldNodes.take 1) [("x", .boolean true)] :=
      ⟨rfl, fun _ => List.nodup_singleton _⟩
    have hrepeated : Stops .reject "E" [("x", .boolean true)] patchedEra.fieldNodes[1]
        (.duplicateField "E" "x" none) := .repeatedKey rfl rfl List.mem_cons_self
    exact (hfails patchedEra _).mpr (.field hheads hfields hbefore hrepeated)
  · have hfile : Unwraps (.node (.node .root) "" none [.node (.node .sourceFile) "" none
        [patchedEra]]) (.node (.node .sourceFile) "" none [patchedEra]) := .child rfl rfl
    exact hunwraps _ _ hfile

end Citizen

end WorldDoc
