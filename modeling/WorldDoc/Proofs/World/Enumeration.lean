import WorldDoc.Proofs.World.Interleaving

/-!
# Listing a world and assembling it again

A world that has been assembled lists its citizens, and assembled again they make up the same world,
whatever the policy: none of them takes the place of another (`assemble_citizens`). That is not so
of a world put together freely, where a citizen may stand under another name or in the collection of
another kind. What it takes is that everything is filed where it belongs (`Filed`), and the worlds
of which that is true are exactly those that can be assembled (`exists_assembled_iff_filed`).

## Shape of the proof

The listing of a filed world has of each kind just the citizens of that collection, in its order
(`filter_member_citizens`). So the world gathered from the listing has the same collections
(`gathered_citizens`), and no kind and name comes twice in it (`nodup_citizens`).
-/

namespace WorldDoc.World

/-- The Origin of the world is one, and whatever is in a collection is of its kind and stands under
its own name. -/
structure Filed (w : World) : Prop where
  origin : ∀ c ∈ w.origin, c.kind = .origin
  members : ∀ of, ∀ e ∈ (w.collection of).entries, e.2.kind = .member of ∧ e.2.name = e.1

variable {policy : DuplicatePolicy} {cs : List Citizen} {w : World}

/-- A world that was gathered from citizens has each of them in its place. -/
theorem filed_gathered (cs : List Citizen) : Filed (gathered cs) where
  origin c hc := by
    have hfound : cs.find? (fun c => c.kind = .origin) = some c := hc
    simpa using List.find?_some hfound
  members _ _ he := mem_entries_gathered he

/-- Whatever a gathered world lists is among the citizens it is gathered from. -/
theorem mem_of_mem_citizens {c : Citizen} (h : c ∈ (gathered cs).citizens) : c ∈ cs := by
  rw [citizens, List.mem_append, List.mem_flatMap] at h
  rcases h with horigin | ⟨of, -, hc⟩
  · exact List.mem_of_find?_eq_some (Option.mem_toList.mp horigin)
  · obtain ⟨e, he, rfl⟩ := List.mem_map.mp hc
    rw [collection_gathered] at he
    obtain ⟨d, hd, rfl⟩ := List.mem_map.mp (NameTable.mem_of_mem_entries_ofList he)
    exact (List.mem_filter.mp hd).1

/-! ## The listing of each kind -/

namespace Filed

variable (h : Filed w)

include h

/-- The members of a collection are of its kind. -/
theorem kind_of_mem_values {of : Collection} {c : Citizen} (hc : c ∈ (w.collection of).values) :
    c.kind = .member of := by
  obtain ⟨e, he, rfl⟩ := List.mem_map.mp hc
  exact (h.members of e he).1

/-- The Origin is the one citizen of its kind. -/
theorem filter_origin_citizens : (w.citizens.filter fun c => c.kind = .origin) = w.origin.toList := by
  have hmembers : ((Collection.all.flatMap fun of => (w.collection of).values).filter
      fun c => c.kind = .origin) = [] := by
    refine List.filter_eq_nil_iff.mpr fun c hc => ?_
    obtain ⟨of, -, hc⟩ := List.mem_flatMap.mp hc
    simp [h.kind_of_mem_values hc]
  rw [citizens, List.filter_append, hmembers, List.append_nil]
  exact List.filter_eq_self.mpr fun c hc => decide_eq_true (h.origin c (Option.mem_toList.mp hc))

/-- The citizens of a kind are the members of its collection, in the order of their names. -/
theorem filter_member_citizens (of : Collection) :
    (w.citizens.filter fun c => c.kind = .member of) = (w.collection of).values := by
  have horigin : (w.origin.toList.filter fun c => c.kind = .member of) = [] :=
    List.filter_eq_nil_iff.mpr fun c hc => by simp [h.origin c (Option.mem_toList.mp hc)]
  have hcollection (other : Collection) :
      ((w.collection other).values.filter fun c => c.kind = .member of) =
        if other = of then (w.collection other).values else [] := by
    split
    · rename_i hother
      exact List.filter_eq_self.mpr fun c hc =>
        decide_eq_true (hother ▸ h.kind_of_mem_values hc)
    · rename_i hother
      exact List.filter_eq_nil_iff.mpr fun c hc => by simp [h.kind_of_mem_values hc, hother]
  rw [citizens, List.filter_append, horigin, List.nil_append, List.filter_flatMap]
  simp only [hcollection]
  cases of <;> simp [Collection.all]

/-- The members stand under their own names. -/
theorem map_name_values (of : Collection) :
    (w.collection of).values.map Citizen.name = (w.collection of).names := by
  rw [NameTable.values, NameTable.names, List.map_map]
  exact List.map_congr_left fun e he => (h.members of e he).2

/-! ## The listing as a whole -/

/-- A world is gathered again from its citizens. -/
theorem gathered_citizens : gathered w.citizens = w := by
  refine ext_of_collections ?_ fun of => ?_
  · show w.citizens.find? _ = w.origin
    rw [← List.head?_filter, h.filter_origin_citizens]
    cases w.origin <;> rfl
  · have hpairs : (w.collection of).values.map (fun c => (c.name, c)) =
        (w.collection of).entries := by
      have hself (e : String × Citizen) (he : e ∈ (w.collection of).entries) :
          (e.2.name, e.2) = id e := Prod.ext (h.members of e he).2 rfl
      rw [NameTable.values, List.map_map]
      exact (List.map_congr_left hself).trans (List.map_id _)
    rw [collection_gathered, tableOf, h.filter_member_citizens, hpairs, NameTable.ofList_entries]

end Filed

/-- Citizens have different kinds or names if those of each kind have different names. -/
theorem nodup_keys (h : ∀ kind, ((cs.filter fun c => c.kind = kind).map Citizen.name).Nodup) :
    (cs.map Citizen.key).Nodup := by
  simp only [List.Nodup, List.pairwise_map, List.pairwise_filter, decide_eq_true_eq] at h ⊢
  rw [List.pairwise_iff_forall_sublist]
  intro c d hsublist hkey
  obtain ⟨hkind, hname⟩ := Prod.mk.inj hkey
  exact List.pairwise_iff_forall_sublist.mp (h d.kind) hsublist hkind rfl hname

namespace Filed

variable (h : Filed w)

include h

/-- No two citizens of a world have one kind and name. -/
theorem nodup_citizens : (w.citizens.map Citizen.key).Nodup := by
  refine nodup_keys fun kind => ?_
  cases kind with
  | origin =>
    rw [h.filter_origin_citizens]
    cases w.origin <;> simp
  | member of =>
    rw [h.filter_member_citizens, h.map_name_values]
    exact (w.collection of).nodup

/-- No citizen of a world is refused behind those before it. -/
theorem accepted_citizens (policy : DuplicatePolicy) : Accepted policy w.citizens := by
  have horigins : (w.citizens.filter fun c => c.kind = .origin).length ≤ 1 := by
    rw [h.filter_origin_citizens]
    exact Option.length_toList_le
  exact accepted_of_distinct h.nodup_citizens horigins policy

/-- Assembled again, the citizens of a world make up the same world. -/
theorem outcome_assemble_citizens (policy : DuplicatePolicy) :
    (assemble policy w.citizens).outcome = .ok w :=
  assemble_eq_ok_iff.mpr ⟨h.accepted_citizens policy, h.gathered_citizens.symm⟩

end Filed

/-! ## Assembled worlds -/

/-- An assembled world has each citizen in its place. -/
theorem filed_of_assemble (h : (assemble policy cs).outcome = .ok w) : Filed w :=
  (assemble_eq_ok_iff.mp h).2 ▸ filed_gathered cs

/-- The worlds that can be assembled are those in which everything is filed where it belongs. -/
theorem exists_assembled_iff_filed (policy : DuplicatePolicy) (w : World) :
    (∃ cs, (assemble policy cs).outcome = .ok w) ↔ Filed w :=
  ⟨fun ⟨_, h⟩ => filed_of_assemble h, fun h => ⟨w.citizens, h.outcome_assemble_citizens policy⟩⟩

/-- Of the citizens that have been assembled, those that are not in the world have been recorded as
overwritten. -/
theorem size_add_countP_assemble (h : (assemble policy cs).outcome = .ok w) :
    w.size + (assemble policy cs).events.countP LogEvent.isOverwriting = cs.length := by
  obtain ⟨-, rfl⟩ := assemble_eq_ok_iff.mp h
  rw [outcome_assemble] at h
  rcases foldlM_place policy cs (accepted_nil policy) with
    ⟨_, _, _, _, _, _, _, herror⟩ | ⟨-, -, hcount⟩
  · rw [herror] at h
    contradiction
  · have hempty : (gathered []).size = 0 := rfl
    rw [List.nil_append, hempty, Nat.zero_add] at hcount
    rw [countP_assemble h, hcount]

/-- The citizens that an assembled world lists are assembled to the same world under either policy,
and none of them overwrites another. They are among those the world has been assembled from, each is
what the world has under its kind and name, and no kind and name comes twice. -/
theorem assemble_citizens (policy : DuplicatePolicy) (cs : List Citizen) (w : World)
    (h : (assemble policy cs).outcome = .ok w) :
    (∀ other, (assemble other w.citizens).outcome = .ok w ∧
      ∀ e ∈ (assemble other w.citizens).events, e.isOverwriting = false) ∧
    (∀ c ∈ w.citizens, c ∈ cs ∧ w.get? c.kind c.name = some c) ∧
    (w.citizens.map Citizen.key).Nodup := by
  have hfiled : Filed w := filed_of_assemble h
  refine ⟨fun other => ?_, fun c hc => ⟨?_, ?_⟩, hfiled.nodup_citizens⟩
  · have hagain := hfiled.outcome_assemble_citizens other
    have hcount := size_add_countP_assemble hagain
    rw [← size_eq_length_citizens, Nat.add_eq_left, List.countP_eq_zero] at hcount
    exact ⟨hagain, fun e he => Bool.eq_false_iff.mpr (hcount e he)⟩
  · obtain ⟨-, rfl⟩ := assemble_eq_ok_iff.mp h
    exact mem_of_mem_citizens hc
  · have hget := get?_gathered_of_mem (hfiled.accepted_citizens policy) hfiled.nodup_citizens hc
    rwa [hfiled.gathered_citizens] at hget

/-- Of two Eras of one name the later is in the world, and so the world is one that can be assembled
without overwriting. -/
theorem assemble_citizens_of_two_eras :
    let era : Citizen := ⟨.member .eras, "E", .empty⟩
    let later : Citizen := ⟨.member .eras, "E", .ofList [("x", .boolean true)]⟩
    let origin : Citizen := ⟨.origin, "O", .empty⟩
    ∃ w, (assemble .overwrite [era, origin, later]).outcome = .ok w ∧
      w.citizens = [origin, later] ∧ (assemble .reject w.citizens).outcome = .ok w ∧
      later ∈ [era, origin, later] ∧ w.get? later.kind later.name = some later := by
  intro era later origin
  have hok : (assemble .overwrite [era, origin, later]).outcome =
      .ok (gathered [era, origin, later]) := rfl
  have hcitizens : (gathered [era, origin, later]).citizens = [origin, later] := rfl
  have hlater : later ∈ (gathered [era, origin, later]).citizens := by
    rw [hcitizens]
    exact List.mem_cons_of_mem origin List.mem_cons_self
  obtain ⟨hagain, hmem, -⟩ := assemble_citizens .overwrite [era, origin, later] _ hok
  exact ⟨_, hok, hcitizens, (hagain .reject).1, hmem later hlater⟩

end WorldDoc.World
