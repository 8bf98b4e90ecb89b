import WorldDoc.Proofs.World.Policies
import WorldDoc.World.Rule

/-!
# Rearranged citizens

In what order the declarations of a document come matters to its world only so far as it is the
order among those of one kind. If of every kind the same citizens come in the same order
(`SameByKind`), the worlds are the same, and the rules find the same in them. Where no kind and name
comes twice, not even that order matters for what is found under a kind and name
(`assembly_ignores_interleaving`).

## Shape of the proof

Nothing is moved past anything else. The world gathered from some citizens reads those of one kind
after those of another (`gathered_eq_of_sameByKind`), and whether there is a failure can be told
from the Origins alone (`outcome_assemble_overwrite`), or from the Origins and from the names that
come twice, and these are the same in any order (`accepted_iff_of_perm`).
-/

namespace WorldDoc.World

/-- Of every kind the same citizens come in the same order. How the kinds are mixed is left open. -/
def SameByKind (cs ds : List Citizen) : Prop :=
  ∀ kind : CitizenKind, (cs.filter fun c => c.kind = kind) = ds.filter fun c => c.kind = kind

/-- The failure of a second Origin, if there is one. It names the first two. -/
def originConflict? (cs : List Citizen) : Option Failure :=
  match cs.filter fun c => c.kind = .origin with
  | first :: second :: _ => some (.multipleOrigin first.name second.name)
  | _ => none

variable {policy : DuplicatePolicy} {cs ds : List Citizen}

/-! ## Origins -/

/-- There is no conflict of Origins exactly if there is at most one. -/
theorem originConflict?_eq_none_iff :
    originConflict? cs = none ↔ (cs.filter fun c => c.kind = .origin).length ≤ 1 := by
  rw [originConflict?]
  generalize (cs.filter fun c => c.kind = .origin) = origins
  rcases origins with _ | ⟨first, _ | ⟨second, others⟩⟩ <;> simp

/-- Under the policy that overwrites nothing but a second Origin keeps citizens from being
assembled. -/
theorem outcome_assemble_overwrite (cs : List Citizen) :
    (assemble .overwrite cs).outcome = match originConflict? cs with
      | some failure => .error failure
      | none => .ok (gathered cs) := by
  rw [outcome_assemble]
  rcases foldlM_place .overwrite cs (accepted_nil .overwrite) with
    ⟨taken, c, later, failure, rfl, htaken, hrefused, herror⟩ | ⟨haccepted, hok, -⟩
  · -- the citizens before the one that is refused have one Origin, so these two are the first
    rw [List.nil_append] at htaken hrefused
    cases hrefused with
    | @secondOrigin hc o ho hkind =>
      have hmem : o ∈ taken.filter fun c => c.kind = .origin :=
        List.mem_filter.mpr ⟨ho, by simpa using hkind⟩
      have hfirst : (taken.filter fun c => c.kind = .origin) = [o] := by
        rw [htaken.filter_origin] at hmem ⊢
        rw [Option.mem_toList.mp hmem]
        rfl
      have hconflict : originConflict? (taken ++ c :: later) =
          some (.multipleOrigin o.name c.name) := by
        rw [originConflict?, List.filter_append, hfirst, List.filter_cons_of_pos (by simpa using hc)]
        rfl
      rw [herror, hconflict]
    | sameName hpolicy => contradiction
  · rw [List.nil_append] at haccepted hok
    have hnone : originConflict? cs = none := by
      rw [originConflict?_eq_none_iff, haccepted.filter_origin]
      exact Option.length_toList_le
    rw [hok, hnone]

/-- Where later declarations take the place of earlier ones, only a second Origin is refused. -/
theorem accepted_overwrite_iff :
    Accepted .overwrite cs ↔ (cs.filter fun c => c.kind = .origin).length ≤ 1 := by
  have hok : (assemble .overwrite cs).outcome = .ok (gathered cs) ↔ Accepted .overwrite cs :=
    assemble_eq_ok_iff.trans (and_iff_left rfl)
  rw [← hok, outcome_assemble_overwrite, ← originConflict?_eq_none_iff]
  cases originConflict? cs <;> simp

/-- Citizens of different kinds or names, one Origin among them at most, are accepted under either
policy. -/
theorem accepted_of_distinct (hdistinct : (cs.map Citizen.key).Nodup)
    (horigins : (cs.filter fun c => c.kind = .origin).length ≤ 1) (policy : DuplicatePolicy) :
    Accepted policy cs := by
  have hoverwrite := accepted_overwrite_iff.mpr horigins
  cases policy with
  | overwrite => exact hoverwrite
  | reject => exact accepted_reject_iff.mpr ⟨hoverwrite, hdistinct⟩

/-! ## Any order -/

/-- In whatever order citizens come, they are accepted or not. -/
theorem accepted_iff_of_perm (h : cs.Perm ds) : Accepted policy cs ↔ Accepted policy ds := by
  have horigins := (h.filter fun c => c.kind = .origin).length_eq
  have hoverwrite : Accepted .overwrite cs ↔ Accepted .overwrite ds := by
    rw [accepted_overwrite_iff, accepted_overwrite_iff, horigins]
  cases policy with
  | overwrite => exact hoverwrite
  | reject =>
    rw [accepted_reject_iff, accepted_reject_iff, hoverwrite, (h.map Citizen.key).nodup_iff]

/-- Of at most one element there is only one order. -/
theorem eq_of_perm_of_length_le_one {α : Type} {l m : List α} (h : l.Perm m) (hl : l.length ≤ 1) :
    l = m := by
  match l with
  | [] => exact h.nil_eq
  | [a] => exact List.singleton_perm.mp h

/-- No two of the citizens have one kind and name. -/
theorem length_filter_le_one (hdistinct : (cs.map Citizen.key).Nodup) (kind : CitizenKind)
    (name : String) : (cs.filter fun c => c.kind = kind ∧ c.name = name).length ≤ 1 := by
  cases hfilter : cs.filter fun c => c.kind = kind ∧ c.name = name with
  | nil => exact Nat.zero_le 1
  | cons c others =>
    have hc : c ∈ cs.filter fun c => c.kind = kind ∧ c.name = name := hfilter ▸ List.mem_cons_self
    obtain ⟨hmem, hkey⟩ := List.mem_filter.mp hc
    obtain ⟨rfl, rfl⟩ := of_decide_eq_true hkey
    have hsingle := filter_eq_singleton_of_nodup hdistinct hmem
    simp only [Citizen.key, Prod.mk.injEq] at hsingle
    rw [← hfilter, hsingle]
    exact Nat.le_refl 1

/-- Citizens of different kinds or names make up the same mapping in any order. -/
theorem gathered_of_perm (h : cs.Perm ds) (hdistinct : (cs.map Citizen.key).Nodup)
    (horigins : (cs.filter fun c => c.kind = .origin).length ≤ 1) :
    (gathered cs).origin = (gathered ds).origin ∧
      ∀ kind name, (gathered cs).get? kind name = (gathered ds).get? kind name := by
  have horigin : (gathered cs).origin = (gathered ds).origin := by
    show cs.find? _ = ds.find? _
    rw [← List.head?_filter, ← List.head?_filter,
      eq_of_perm_of_length_le_one (h.filter _) horigins]
  refine ⟨horigin, fun kind name => ?_⟩
  cases kind with
  | origin => rw [get?, get?, table, table, horigin]
  | member of =>
    rw [get?_gathered, get?_gathered,
      eq_of_perm_of_length_le_one (h.filter _) (length_filter_le_one hdistinct _ _)]

/-! ## The order in each kind -/

/-- A citizen comes among all as often as it comes among those of its kind. -/
theorem SameByKind.perm (h : SameByKind cs ds) : cs.Perm ds := by
  -- to count citizens they have to be compared, which needs no computation here
  classical
  refine List.perm_iff_count.mpr fun c => ?_
  have hcount (l : List Citizen) : (l.filter fun d => d.kind = c.kind).count c = l.count c :=
    List.count_filter (decide_eq_true rfl)
  rw [← hcount cs, h, hcount ds]

/-- The world that citizens make up depends on the order within each kind alone. -/
theorem gathered_eq_of_sameByKind (h : SameByKind cs ds) : gathered cs = gathered ds := by
  refine ext_of_collections ?_ fun of => ?_
  · show cs.find? _ = ds.find? _
    rw [← List.head?_filter, ← List.head?_filter, h .origin]
  · rw [collection_gathered, collection_gathered, tableOf, tableOf, h (.member of)]

/-- So does the outcome, where later declarations take the place of earlier ones. -/
theorem outcome_overwrite_eq_of_sameByKind (h : SameByKind cs ds) :
    (assemble .overwrite cs).outcome = (assemble .overwrite ds).outcome := by
  rw [outcome_assemble_overwrite, outcome_assemble_overwrite, originConflict?, originConflict?,
    h .origin, gathered_eq_of_sameByKind h]

/-- So does the world under either policy, if there is one. -/
theorem assemble_eq_ok_iff_of_sameByKind (h : SameByKind cs ds) {w : World} :
    (assemble policy cs).outcome = .ok w ↔ (assemble policy ds).outcome = .ok w := by
  rw [assemble_eq_ok_iff, assemble_eq_ok_iff, accepted_iff_of_perm h.perm,
    gathered_eq_of_sameByKind h]

/-- Citizens that are the same kind by kind are assembled to the same world, and the rules find the
same in it. Under the policy that overwrites there is otherwise the same failure, of the same two
Origins. Citizens of different kinds or names, one Origin among them at most, are assembled in any
order, to worlds that hold the same under every kind and name. -/
theorem assembly_ignores_interleaving :
    (∀ cs ds : List Citizen, SameByKind cs ds →
      (assemble .overwrite cs).outcome = (assemble .overwrite ds).outcome ∧
      ((∃ w, (assemble .overwrite cs).outcome = .ok w) ∨ ∃ first second others,
        (cs.filter fun c => c.kind = .origin) = first :: second :: others ∧
        (assemble .overwrite cs).outcome = .error (.multipleOrigin first.name second.name)) ∧
      (∀ w, (assemble .reject cs).outcome = .ok w ↔ (assemble .reject ds).outcome = .ok w) ∧
      (∀ rules, (do Rule.validate rules (← assemble .overwrite cs)).outcome =
        (do Rule.validate rules (← assemble .overwrite ds)).outcome) ∧
      ((∃ w, (assemble .reject cs).outcome = .ok w) → ∀ rules,
        (do Rule.validate rules (← assemble .reject cs)).outcome =
          (do Rule.validate rules (← assemble .reject ds)).outcome)) ∧
    ∀ cs ds : List Citizen, cs.Perm ds → (cs.map Citizen.key).Nodup →
      (cs.filter fun c => c.kind = .origin).length ≤ 1 → ∀ policy, ∃ v w,
        (assemble policy cs).outcome = .ok v ∧ (assemble policy ds).outcome = .ok w ∧
        v.origin = w.origin ∧ ∀ kind name, v.get? kind name = w.get? kind name := by
  constructor
  · intro cs ds hsame
    have hoverwrite := outcome_overwrite_eq_of_sameByKind hsame
    refine ⟨hoverwrite, ?_, fun w => assemble_eq_ok_iff_of_sameByKind hsame,
      fun rules => ?_, fun ⟨w, hw⟩ rules => ?_⟩
    · rw [outcome_assemble_overwrite, originConflict?]
      generalize (cs.filter fun c => c.kind = .origin) = origins
      rcases origins with _ | ⟨first, _ | ⟨second, others⟩⟩
      · exact Or.inl ⟨_, rfl⟩
      · exact Or.inl ⟨_, rfl⟩
      · exact Or.inr ⟨first, second, others, rfl, rfl⟩
    · rw [Traced.outcome_bind, Traced.outcome_bind, hoverwrite]
    · rw [Traced.outcome_bind, Traced.outcome_bind, hw,
        (assemble_eq_ok_iff_of_sameByKind hsame).mp hw]
  · intro cs ds hperm hdistinct horigins policy
    have haccepted : Accepted policy cs := accepted_of_distinct hdistinct horigins policy
    exact ⟨gathered cs, gathered ds, assemble_eq_ok_iff.mpr ⟨haccepted, rfl⟩,
      assemble_eq_ok_iff.mpr ⟨(accepted_iff_of_perm hperm).mp haccepted, rfl⟩,
      gathered_of_perm hperm hdistinct horigins⟩

/-- An Origin between two Eras of one name can come first, and the Eras are assembled as before; an
Origin and an Era can come in any order. -/
theorem assemble_origin_among_eras :
    let bare (kind : CitizenKind) (name : String) : Citizen := ⟨kind, name, .empty⟩
    let era := bare (.member .eras) "E"
    let later : Citizen := ⟨.member .eras, "E", .ofList [("x", .boolean true)]⟩
    let origin := bare .origin "O"
    (assemble .overwrite [era, origin, later]).outcome =
        (assemble .overwrite [origin, era, later]).outcome ∧
      (∀ w, (assemble .reject [era, origin, later]).outcome = .ok w ↔
        (assemble .reject [origin, era, later]).outcome = .ok w) ∧
      ∃ v w, (assemble .reject [era, origin]).outcome = .ok v ∧
        (assemble .reject [origin, era]).outcome = .ok w ∧ v.origin = w.origin ∧
        ∀ kind name, v.get? kind name = w.get? kind name := by
  intro bare era later origin
  obtain ⟨hsame, hperm⟩ := assembly_ignores_interleaving
  have hbykind : SameByKind [era, origin, later] [origin, era, later] := by
    intro kind
    cases kind <;> rfl
  obtain ⟨hoverwrite, -, hreject, -⟩ := hsame _ _ hbykind
  have hdistinct : ([era, origin].map Citizen.key).Nodup := by decide
  exact ⟨hoverwrite, hreject,
    hperm _ _ (List.Perm.swap origin era []) hdistinct (Nat.le_refl 1) .reject⟩

end WorldDoc.World
