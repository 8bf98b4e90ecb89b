import Mathlib.Algebra.Ring.Nat
import WorldDoc.Proofs.Log
import WorldDoc.Proofs.NameTable
import WorldDoc.World.Assembly

/-!
# What assembly makes of citizens

The world of some citizens can be said without assembling it: its Origin is the first one among
them, and each collection is the table of those of its kind by name (`gathered`). Assembly takes the
citizens one by one and arrives at this world, unless it comes to one that it refuses: an Origin
behind another one, or, under the policy that rejects, a citizen of the kind and name of an earlier
one (`Refusal`). All that is said of an assembled world is read off the gathered one
(`assemble_gathers_or_refuses`).

## Shape of the proof

The world in the middle of an assembly is the one gathered so far. So it is enough to look at one
more citizen (`place_gathered`): it is refused, with the failure that tells why, or the world with
it is the one gathered from all up to it, and either the world has grown by one or the overwriting
was recorded. The rest is induction on the citizens that wait (`foldlM_place`).
-/

namespace WorldDoc

/-- What a world knows a citizen by. -/
def Citizen.key (c : Citizen) : CitizenKind × String := (c.kind, c.name)

/-- Whether an event records that a later declaration took the place of an earlier one. -/
def LogEvent.isOverwriting : LogEvent → Bool
  | .declarationOverwritten _ _ => true
  | _ => false

namespace World

/-! ## Gathering -/

/-- The members of a collection among some citizens, by name. -/
def tableOf (of : Collection) (cs : List Citizen) : NameTable Citizen :=
  .ofList ((cs.filter fun c => c.kind = .member of).map fun c => (c.name, c))

/-- The world that some citizens make up. -/
def gathered (cs : List Citizen) : World where
  origin := cs.find? fun c => c.kind = .origin
  timelines := tableOf .timelines cs
  events := tableOf .events cs
  coreEvents := tableOf .coreEvents cs
  niches := tableOf .niches cs
  eras := tableOf .eras cs
  generators := tableOf .generators cs
  memories := tableOf .memories cs
  immunes := tableOf .immunes cs

/-- A collection of the gathered world has the members of its kind. -/
theorem collection_gathered (of : Collection) (cs : List Citizen) :
    (gathered cs).collection of = tableOf of cs := by
  cases of <;> rfl

/-- Worlds with the same Origin and the same collections are the same. -/
theorem ext_of_collections {v w : World} (horigin : v.origin = w.origin)
    (hcollections : ∀ of, v.collection of = w.collection of) : v = w :=
  World.ext horigin (hcollections .timelines) (hcollections .events) (hcollections .coreEvents)
    (hcollections .niches) (hcollections .eras) (hcollections .generators)
    (hcollections .memories) (hcollections .immunes)

section Concat

variable {cs : List Citizen} {c : Citizen} {of : Collection}

/-- One more citizen of its kind is put into a collection. -/
theorem tableOf_concat_of_kind (h : c.kind = .member of) :
    tableOf of (cs ++ [c]) = (tableOf of cs).insert c.name c := by
  rw [tableOf, List.filter_append, List.filter_cons_of_pos (by simp [h]), List.filter_nil,
    List.map_append, List.map_singleton, NameTable.ofList_concat]
  rfl

/-- A citizen of another kind leaves a collection as it is. -/
theorem tableOf_concat_of_kind_ne (h : c.kind ≠ .member of) :
    tableOf of (cs ++ [c]) = tableOf of cs := by
  rw [tableOf, List.filter_append, List.filter_cons_of_neg (by simp [h]), List.filter_nil,
    List.append_nil]
  rfl

/-- A first Origin becomes the Origin of the world. -/
theorem gathered_concat_origin (h : c.kind = .origin)
    (hnone : (gathered cs).origin = none) :
    { gathered cs with origin := some c } = gathered (cs ++ [c]) := by
  refine ext_of_collections ?_ fun of => ?_
  · show some c = (cs ++ [c]).find? _
    rw [List.find?_append, show cs.find? _ = none from hnone, Option.none_or,
      List.find?_cons_of_pos (by simp [h])]
  · rw [collection_gathered, tableOf_concat_of_kind_ne (by simp [h]), ← collection_gathered]
    cases of <;> rfl

/-- A citizen that is no Origin goes into its collection. -/
theorem gathered_concat_member (h : c.kind = .member of) :
    (gathered cs).setCollection ((tableOf of cs).insert c.name c) of = gathered (cs ++ [c]) := by
  refine ext_of_collections ?_ fun other => ?_
  · rw [origin_setCollection]
    show cs.find? _ = (cs ++ [c]).find? _
    rw [List.find?_append, List.find?_cons_of_neg (by simp [h]), List.find?_nil, Option.or_none]
  · rw [collection_gathered other (cs ++ [c])]
    by_cases hother : other = of
    · subst hother
      rw [collection_setCollection_self, tableOf_concat_of_kind h]
    · rw [collection_setCollection_of_ne _ _ hother, collection_gathered,
        tableOf_concat_of_kind_ne (by simp [h, Ne.symm hother])]

end Concat

/-! ## How many citizens a world has -/

/-- The size of a world counts its Origin and the members of each collection. -/
theorem size_eq (w : World) :
    w.size = w.origin.toList.length + (Collection.all.map fun of => (w.collection of).size).sum := by
  cases horigin : w.origin <;>
    simp [size, counts, CitizenKind.all, Collection.all, table, horigin, NameTable.size,
      NameTable.empty, NameTable.insert, NameTable.insertEntry, Nat.add_assoc]

/-- The size of a world is the sum over its kinds. -/
theorem size_eq_sum_counts (w : World) : w.size = (w.counts.map Prod.snd).sum := by
  rw [size_eq]
  cases horigin : w.origin <;>
    simp [counts, CitizenKind.all, Collection.all, table, horigin, NameTable.size,
      NameTable.empty, NameTable.insert, NameTable.insertEntry]

/-- The size of a world is the number of its citizens. -/
theorem size_eq_length_citizens (w : World) : w.size = w.citizens.length := by
  rw [size_eq, citizens, List.length_append, List.length_flatMap]
  simp [NameTable.values, NameTable.size]

/-- Exchanging a collection changes the size of the world as it does that of the collection. -/
theorem size_setCollection (w : World) (t : NameTable Citizen) (of : Collection) :
    (w.setCollection t of).size + (w.collection of).size = w.size + t.size := by
  rw [size_eq, size_eq, origin_setCollection]
  cases of <;> simp [Collection.all, collection, setCollection] <;> omega

/-! ## Refusals -/

/-- `Refusal policy before c failure`: behind the citizens in `before`, assembly refuses `c` with
`failure`. -/
inductive Refusal (policy : DuplicatePolicy) (before : List Citizen) (c : Citizen) :
    Failure → Prop
  | secondOrigin (hc : c.kind = .origin) {o : Citizen} (ho : o ∈ before) (hkind : o.kind = .origin) :
    Refusal policy before c (.multipleOrigin o.name c.name)
  | sameName (hpolicy : policy = .reject) (hc : c.kind ≠ .origin) {d : Citizen} (hd : d ∈ before)
    (hkind : d.kind = c.kind) (hname : d.name = c.name) :
    Refusal policy before c (.duplicateDeclaration c.kind.word c.name)

/-- None of the citizens is refused behind those before it. -/
def Accepted (policy : DuplicatePolicy) (cs : List Citizen) : Prop :=
  ∀ before c later failure, cs = before ++ c :: later → ¬ Refusal policy before c failure

section Accepted

variable {policy : DuplicatePolicy} {cs : List Citizen} {c : Citizen}

/-- Of no citizens none is refused. -/
theorem accepted_nil (policy : DuplicatePolicy) : Accepted policy [] :=
  fun before _ _ _ h => absurd h.symm (by simp)

/-- All of some citizens are accepted if those before the last are and it is not refused behind
them. -/
theorem accepted_concat : Accepted policy (cs ++ [c]) ↔
    Accepted policy cs ∧ ∀ failure, ¬ Refusal policy cs c failure := by
  constructor
  · intro h
    refine ⟨fun before d later failure hcs => ?_, fun failure => h cs c [] failure rfl⟩
    exact h before d (later ++ [c]) failure (by rw [hcs, List.append_assoc, List.cons_append])
  · rintro ⟨hcs, hc⟩ before d later failure hsplit
    rcases List.eq_nil_or_concat later with rfl | ⟨later, last, rfl⟩
    · obtain ⟨rfl, hlast⟩ := List.append_inj' hsplit rfl
      obtain rfl := List.singleton_inj.mp hlast
      exact hc failure
    · rw [List.concat_eq_append, ← List.cons_append, ← List.append_assoc] at hsplit
      obtain ⟨rfl, -⟩ := List.append_inj' hsplit rfl
      exact hcs before d later failure rfl

/-- There is at most one Origin among citizens none of which is refused. -/
theorem Accepted.filter_origin (h : Accepted policy cs) :
    (cs.filter fun c => c.kind = .origin) = (gathered cs).origin.toList := by
  induction cs using List.reverseRecOn with
  | nil => rfl
  | append_singleton cs c ih =>
    obtain ⟨hcs, hc⟩ := accepted_concat.mp h
    have hfind : (gathered (cs ++ [c])).origin =
        (gathered cs).origin.or ([c].find? fun c => c.kind = .origin) := List.find?_append
    rw [List.filter_append, ih hcs, hfind]
    by_cases hkind : c.kind = .origin
    · have hnone : (gathered cs).origin = none := by
        refine List.find?_eq_none.mpr fun o ho horigin => ?_
        exact hc _ (.secondOrigin hkind ho (of_decide_eq_true horigin))
      simp [hnone, hkind]
    · simp [hkind]

end Accepted

/-! ## One more citizen -/

/-- A name is in a collection exactly if a citizen of its kind has it. -/
theorem contains_tableOf {of : Collection} {cs : List Citizen} {name : String} :
    (tableOf of cs).contains name = true ↔ ∃ d ∈ cs, d.kind = .member of ∧ d.name = name := by
  simp [tableOf, NameTable.contains_ofList, and_assoc]

/-- What it comes to that `c` is placed behind the citizens in `before`: it is refused, or the world
with it is gathered from all up to it. Then the world has grown by one, or it was recorded that `c`
took the place of another citizen. -/
def PlacedOrRefused (policy : DuplicatePolicy) (before : List Citizen) (c : Citizen) : Prop :=
  (∃ failure, Refusal policy before c failure ∧
    (place policy (gathered before) c).outcome = .error failure) ∨
  ((∀ failure, ¬ Refusal policy before c failure) ∧
    (place policy (gathered before) c).outcome = .ok (gathered (before ++ [c])) ∧
    (gathered (before ++ [c])).size +
        (place policy (gathered before) c).events.countP LogEvent.isOverwriting =
      (gathered before).size + 1)

section Place

variable (policy : DuplicatePolicy) (before : List Citizen) {c : Citizen}

/-- The first Origin makes the world one larger. -/
theorem size_concat_origin (hkind : c.kind = .origin) (hnone : (gathered before).origin = none) :
    (gathered (before ++ [c])).size = (gathered before).size + 1 := by
  rw [← gathered_concat_origin hkind hnone, size_eq, size_eq, hnone]
  simp [Collection.all, collection]
  omega

/-- An Origin is placed if it is the first, and refused otherwise. -/
theorem place_origin (hkind : c.kind = .origin) : PlacedOrRefused policy before c := by
  cases horigin : (gathered before).origin with
  | some o =>
    have hfound : before.find? (fun c => c.kind = .origin) = some o := horigin
    have ho : o.kind = .origin := by simpa using List.find?_some hfound
    refine Or.inl ⟨_, .secondOrigin hkind (List.mem_of_find?_eq_some hfound) ho, ?_⟩
    simp only [place, hkind, horigin]
    rfl
  | none =>
    have hplace : place policy (gathered before) c = pure (gathered (before ++ [c])) := by
      simp only [place, hkind, horigin, gathered_concat_origin hkind horigin]
    have hcount : (place policy (gathered before) c).events.countP LogEvent.isOverwriting = 0 := by
      rw [hplace]
      rfl
    refine Or.inr ⟨?_, by rw [hplace]; rfl,
      by rw [hcount, Nat.add_zero, size_concat_origin before hkind horigin]⟩
    rintro failure (⟨-, ho, horiginal⟩ | ⟨-, hnot, -⟩)
    · exact List.find?_eq_none.mp horigin _ ho (by simp [horiginal])
    · exact hnot hkind

/-- A member that its collection accepts grows the world unless it takes another one's place. -/
theorem size_concat_member {of : Collection} (hkind : c.kind = .member of) :
    (gathered (before ++ [c])).size + (if (tableOf of before).contains c.name then 1 else 0) =
      (gathered before).size + 1 := by
  have hsize := size_setCollection (gathered before) ((tableOf of before).insert c.name c) of
  rw [gathered_concat_member hkind, collection_gathered, NameTable.size_insert] at hsize
  split at hsize <;> simp_all
  omega

/-- Any other citizen is placed, unless its name is taken and the policy is to reject it. -/
theorem place_member {of : Collection} (hkind : c.kind = .member of) :
    PlacedOrRefused policy before c := by
  by_cases hreject : (tableOf of before).contains c.name = true ∧ policy = .reject
  · obtain ⟨d, hd, hdkind, hdname⟩ := contains_tableOf.mp hreject.1
    refine Or.inl ⟨_, .sameName hreject.2 (by simp [hkind]) hd (by rw [hdkind, hkind]) hdname, ?_⟩
    simp only [place, hkind, collection_gathered, NameTable.insertUnder, hreject, and_self, if_true]
    rfl
  · have hplace : place policy (gathered before) c = (do
        Traced.logIf ((tableOf of before).contains c.name) (.declarationOverwritten c.kind c.name)
        pure (gathered (before ++ [c]))) := by
      simp only [place, hkind, collection_gathered, NameTable.insertUnder, if_neg hreject,
        gathered_concat_member hkind]
    have hcount : (place policy (gathered before) c).events.countP LogEvent.isOverwriting =
        if (tableOf of before).contains c.name then 1 else 0 := by
      rw [hplace, Traced.events_bind_ok _ (Traced.outcome_logIf _ _)]
      cases (tableOf of before).contains c.name <;> rfl
    refine Or.inr ⟨?_, ?_, by rw [hcount]; exact size_concat_member before hkind⟩
    · rintro failure (⟨horigin, -⟩ | ⟨hpolicy, -, hd, hdkind, hdname⟩)
      · simp [hkind] at horigin
      · exact hreject ⟨contains_tableOf.mpr ⟨_, hd, by rw [hdkind, hkind], hdname⟩, hpolicy⟩
    · rw [hplace, Traced.outcome_bind_ok _ (Traced.outcome_logIf _ _)]
      rfl

/-- Whatever its kind, a citizen is placed or refused as it should be. -/
theorem place_gathered (c : Citizen) : PlacedOrRefused policy before c := by
  cases hkind : c.kind with
  | origin => exact place_origin policy before hkind
  | member of => exact place_member policy before hkind

end Place

/-! ## All citizens -/

/-- Assembly goes on from the world gathered so far to the first citizen that it refuses, or to the
world gathered from all. -/
theorem foldlM_place (policy : DuplicatePolicy) {before : List Citizen} (rest : List Citizen)
    (hbefore : Accepted policy before) :
    (∃ taken c later failure, rest = taken ++ c :: later ∧ Accepted policy (before ++ taken) ∧
      Refusal policy (before ++ taken) c failure ∧
      (rest.foldlM (place policy) (gathered before)).outcome = .error failure) ∨
    (Accepted policy (before ++ rest) ∧
      (rest.foldlM (place policy) (gathered before)).outcome = .ok (gathered (before ++ rest)) ∧
      (gathered (before ++ rest)).size +
          (rest.foldlM (place policy) (gathered before)).events.countP LogEvent.isOverwriting =
        (gathered before).size + rest.length) := by
  induction rest generalizing before with
  | nil =>
    rw [List.append_nil]
    exact Or.inr ⟨hbefore, rfl, rfl⟩
  | cons c rest ih =>
    rw [List.foldlM_cons]
    rcases place_gathered policy before c with
      ⟨failure, hrefused, herror⟩ | ⟨haccepted, hok, hsize⟩
    · refine Or.inl ⟨[], c, rest, failure, rfl, ?_, ?_, Traced.outcome_bind_error _ herror⟩
      · rwa [List.append_nil]
      · rwa [List.append_nil]
    · have happend (l : List Citizen) : before ++ c :: l = before ++ [c] ++ l := by simp
      rw [Traced.outcome_bind_ok _ hok, Traced.events_bind_ok _ hok]
      rw [happend rest]
      rcases ih (accepted_concat.mpr ⟨hbefore, haccepted⟩) with
        ⟨taken, d, later, failure, rfl, htaken, hrefused, herror⟩ | ⟨hrest, houtcome, hcount⟩
      · refine Or.inl ⟨c :: taken, d, later, failure, rfl, ?_, ?_, herror⟩
        · rwa [happend]
        · rwa [happend]
      · refine Or.inr ⟨hrest, houtcome, ?_⟩
        rw [List.countP_append, List.length_cons]
        omega

/-- The events at the end of an assembly do not change its outcome. -/
theorem outcome_assemble (policy : DuplicatePolicy) (cs : List Citizen) :
    (assemble policy cs).outcome = (cs.foldlM (place policy) (gathered [])).outcome := by
  rw [assemble, Traced.outcome_bind]
  show (cs.foldlM (place policy) (gathered [])).outcome >>= Except.ok = _
  cases (cs.foldlM (place policy) (gathered [])).outcome <;> rfl

/-- Only placing citizens records that one took the place of another. -/
theorem countP_assemble {policy : DuplicatePolicy} {cs : List Citizen} {w : World}
    (h : (cs.foldlM (place policy) (gathered [])).outcome = .ok w) :
    (assemble policy cs).events.countP LogEvent.isOverwriting =
      (cs.foldlM (place policy) (gathered [])).events.countP LogEvent.isOverwriting := by
  have hevents := Traced.events_bind_ok
    (fun w => do Traced.log (.worldAssembled w.size); pure w) h
  exact (congrArg _ hevents).trans List.countP_append

/-! ## What a gathered world holds -/

/-- Under a name of some kind stands the last citizen that has it. -/
theorem get?_gathered (cs : List Citizen) (of : Collection) (name : String) :
    (gathered cs).get? (.member of) name =
      (cs.filter fun c => c.kind = .member of ∧ c.name = name).getLast? := by
  show ((gathered cs).collection of).get? name = _
  rw [collection_gathered, tableOf, NameTable.get?_ofList, List.filter_map, List.filter_filter,
    List.getLast?_map, Option.map_map]
  simp [Function.comp_def, and_comm]

/-- The names of a collection stand in the order in which they come first. -/
theorem names_gathered (cs : List Citizen) (of : Collection) :
    ((gathered cs).collection of).names =
      ((cs.filter fun c => c.kind = .member of).map Citizen.name).eraseDups := by
  rw [collection_gathered, tableOf, NameTable.names_ofList, List.map_map]
  rfl

/-- Each entry of a collection is a citizen of its kind, under its own name. -/
theorem mem_entries_gathered {cs : List Citizen} {of : Collection} {e : String × Citizen}
    (h : e ∈ ((gathered cs).collection of).entries) : e.2.kind = .member of ∧ e.2.name = e.1 := by
  rw [collection_gathered] at h
  obtain ⟨c, hc, rfl⟩ := List.mem_map.mp (NameTable.mem_of_mem_entries_ofList h)
  exact ⟨by simpa using (List.mem_filter.mp hc).2, rfl⟩

/-- Where all citizens are accepted the world has one for each kind and name among them. -/
theorem size_gathered {policy : DuplicatePolicy} {cs : List Citizen} (h : Accepted policy cs) :
    (gathered cs).size = (cs.map Citizen.key).eraseDups.length := by
  induction cs using List.reverseRecOn with
  | nil => rfl
  | append_singleton cs c ih =>
    obtain ⟨hcs, hc⟩ := accepted_concat.mp h
    rw [List.map_append, List.map_singleton, eraseDups_concat, apply_ite List.length,
      List.length_append, List.length_singleton, ← ih hcs]
    have hseen : (cs.map Citizen.key).contains c.key = true ↔
        ∃ d ∈ cs, d.kind = c.kind ∧ d.name = c.name := by
      simp [Citizen.key]
    cases hkind : c.kind with
    | origin =>
      have hfirst (d : Citizen) (hd : d ∈ cs) : d.kind ≠ .origin := fun horigin =>
        hc _ (.secondOrigin hkind hd horigin)
      have hnone : (gathered cs).origin = none :=
        List.find?_eq_none.mpr fun d hd => by simpa using hfirst d hd
      rw [size_concat_origin cs hkind hnone, if_neg]
      rw [hseen, hkind]
      exact fun ⟨d, hd, horigin, _⟩ => hfirst d hd horigin
    | member of =>
      have hsize := size_concat_member cs hkind
      have hcontains : (tableOf of cs).contains c.name = (cs.map Citizen.key).contains c.key := by
        rw [Bool.eq_iff_iff, contains_tableOf, hseen, hkind]
      rw [hcontains] at hsize
      split at hsize <;> simp_all

/-- Assembly refuses the first citizen that it has to refuse, and then there is no world. If there
is none such, the world has the only Origin there is, under every other kind and name the last
citizen of that kind and name, and each collection in the order in which its names first came. It is
as large as there are different kinds with names, and every citizen beyond that has been recorded as
overwriting another one. -/
theorem assemble_gathers_or_refuses (policy : DuplicatePolicy) (cs : List Citizen) :
    (∃ before c later failure, cs = before ++ c :: later ∧ Accepted policy before ∧
      Refusal policy before c failure ∧ (assemble policy cs).outcome = .error failure) ∨
    (Accepted policy cs ∧ ∃ w, (assemble policy cs).outcome = .ok w ∧
      cs.filter (fun c => c.kind = .origin) = w.origin.toList ∧
      (∀ of name, w.get? (.member of) name =
        (cs.filter fun c => c.kind = .member of ∧ c.name = name).getLast?) ∧
      (∀ of, (w.collection of).names =
        ((cs.filter fun c => c.kind = .member of).map Citizen.name).eraseDups) ∧
      (∀ of, ∀ e ∈ (w.collection of).entries, e.2.kind = .member of ∧ e.2.name = e.1) ∧
      w.size = (w.counts.map Prod.snd).sum ∧ w.size = w.citizens.length ∧
      w.size = (cs.map Citizen.key).eraseDups.length ∧
      cs.length = w.size + (assemble policy cs).events.countP LogEvent.isOverwriting) := by
  rcases foldlM_place policy cs (accepted_nil policy) with
    ⟨before, c, later, failure, hcs, hbefore, hrefused, herror⟩ | ⟨haccepted, hok, hcount⟩
  · exact Or.inl ⟨before, c, later, failure, hcs, hbefore, hrefused,
      (outcome_assemble policy cs).trans herror⟩
  · rw [List.nil_append] at haccepted hok hcount
    refine Or.inr ⟨haccepted, gathered cs, (outcome_assemble policy cs).trans hok,
      haccepted.filter_origin, get?_gathered cs, names_gathered cs,
      fun of e he => mem_entries_gathered he, size_eq_sum_counts _, size_eq_length_citizens _,
      size_gathered haccepted, ?_⟩
    have hempty : (gathered []).size = 0 := rfl
    rw [countP_assemble hok, hcount, hempty, Nat.zero_add]

end World

end WorldDoc
