import WorldDoc.Proofs.Citizen.Layout
import WorldDoc.Proofs.Parse.Joining

/-!
# Joined texts declare what both declare

A text without diagnostics may be followed, after a line feed, by any other text. The elements of
the document and the diagnostics are those of the two texts one after the other, and so are the
citizens, if nothing is wrong with the second text either (`parse_and_load_joined`).

## Shape of the proof

The trees are put together by `children_joined`. Citizens are built from one node after the other,
so those of the nodes of two texts are built in two runs (`outcome_ofNodes_append`). The second run
is over trees further on in a text, and they have the same gists (`gist_moved`).
-/

namespace WorldDoc

open Outline (unplaced)

namespace SyntaxTree

mutual

/-- A gist does not tell where the tree is. -/
theorem gist_moved (n : Nat) : (t : SyntaxTree) → (t.moved n).gist = t.gist
  | token k r t => rfl
  | node k r t cs => by rw [moved, gist, gist, gists_movedAll]

/-- Elements that are moved keep their gists. -/
theorem gists_movedAll (n : Nat) : (ts : List SyntaxTree) → gists (movedAll n ts) = gists ts
  | [] => rfl
  | t :: ts => by rw [movedAll, gists, gists, gist_moved, gists_movedAll]

end

/-- The outlines of elements that are moved keep their gists. -/
theorem gists_outlineNodes_moved (n : Nat) (ts : List SyntaxTree) :
    (outlineNodes (ts.map (moved n))).map (Outline.gist unplaced) =
      (outlineNodes ts).map (Outline.gist unplaced) := by
  rw [← Outline.gists_eq_map, ← Outline.gists_eq_map, ← gists_outlineNodes_gists,
    ← movedAll_eq_map, gists_movedAll, gists_outlineNodes_gists]

end SyntaxTree

open SyntaxTree (outlineNodes)

namespace Citizen

/-- Citizens are built in two runs if the nodes come in two parts. -/
theorem outcome_ofNodes_append (policy : DuplicatePolicy) (os later : List Outline) :
    (ofNodes policy (os ++ later)).outcome = (do
      let citizens ← (ofNodes policy os).outcome
      let others ← (ofNodes policy later).outcome
      return citizens ++ others) := by
  induction os with
  | nil => exact (bind_pure _).symm
  | cons o os ih =>
    rw [List.cons_append, ofNodes, ofNodes]
    by_cases hdeclaration : o.kind.isDeclaration = true
    · simp only [if_pos hdeclaration, Traced.outcome_bind, ih, bind_assoc]
      refine congrArg _ (funext fun citizen => ?_)
      refine congrArg _ (funext fun citizens => ?_)
      cases (ofNodes policy later).outcome <;> rfl
    · simp only [if_neg hdeclaration, Traced.outcome_bind, ih]
      rfl

/-- It makes no difference to citizens how far on in a text the trees are. -/
theorem sameOutcome_ofNodes_moved (policy : DuplicatePolicy) (n : Nat) (ts : List SyntaxTree) :
    SameOutcome unplaced unplaced
      (ofNodes policy (outlineNodes (ts.map (SyntaxTree.moved n)))).outcome
      (ofNodes policy (outlineNodes ts)).outcome := by
  rw [SameOutcome, sameOutcome_citizens, SyntaxTree.gists_outlineNodes_moved,
    ← sameOutcome_citizens]

end Citizen

namespace Document

variable {a b source : SourceText} {limit : NestingLimit} {policy : DuplicatePolicy}

/-- A text without diagnostics is built from the nodes among the elements of the document. -/
theorem outcome_citizensBy_eq_ofNodes (hclean : (parse source limit).diagnostics = []) :
    (citizensBy (.standard limit) policy source).outcome =
      (Citizen.ofNodes policy (outlineNodes (parse source limit).sourceFile.children)).outcome := by
  have hunwrap : Citizen.unwrapRoot (parse source limit).sourceFile.outline =
      .ok (parse source limit).sourceFile.outline := rfl
  rw [outcome_citizensBy policy hclean, Citizen.allOfOutline, hunwrap]
  simp only [Traced.outcome_bind]
  exact bind_pure (Citizen.ofNodes policy _).outcome

/-- The citizens of joined texts are built from the first text and then from the second. -/
theorem sameOutcome_citizensBy_joined (ha : (parse a limit).diagnostics = [])
    (hb : (parse b limit).diagnostics = []) (policy : DuplicatePolicy) :
    SameOutcome unplaced unplaced (citizensBy (.standard limit) policy (a.joined b)).outcome (do
      let citizens ← (citizensBy (.standard limit) policy a).outcome
      let others ← (citizensBy (.standard limit) policy b).outcome
      return citizens ++ others) := by
  have hclean : (parse (a.joined b) limit).diagnostics = [] := by
    rw [diagnostics_joined ha, hb, List.map_nil]
  rw [outcome_citizensBy_eq_ofNodes hclean, outcome_citizensBy_eq_ofNodes ha,
    outcome_citizensBy_eq_ofNodes hb, children_joined ha, SyntaxTree.outlineNodes_append,
    Citizen.outcome_ofNodes_append]
  exact (SameOutcome.refl _).bind fun citizens =>
    (Citizen.sameOutcome_ofNodes_moved policy _ _).bind fun others => SameOutcome.ok _

/-- Behind a text without diagnostics, on a new line, any text is parsed as it is by itself, only
further on: the document has the elements of the first text and then those of the second, and the
diagnostics are those of the second. If it has none, the document declares what the first text
declares and then what the second does. -/
theorem parse_and_load_joined (a b : SourceText) (limit : NestingLimit)
    (hclean : (parse a limit).diagnostics = []) :
    (parse (a.joined b) limit).sourceFile.children =
        (parse a limit).sourceFile.children ++
          (parse b limit).sourceFile.children.map (SyntaxTree.moved (a.length + 1)) ∧
      (parse (a.joined b) limit).diagnostics =
        (parse b limit).diagnostics.map (Diagnostic.moved (a.length + 1)) ∧
      ((parse b limit).diagnostics = [] → ∀ settings : Settings,
        let load := loadCitizens
          { settings with grammar := none, limit := some limit, duplicateFields := .overwrite }
        ∃ first second both citizens others,
          load a = .ok first ∧ first.outcome = .ok citizens ∧
          load b = .ok second ∧ second.outcome = .ok others ∧
          load (a.joined b) = .ok both ∧ both.outcome = .ok (citizens ++ others)) := by
  refine ⟨children_joined hclean b, diagnostics_joined hclean b, fun hother settings => ?_⟩
  obtain ⟨citizens, hcitizens⟩ := exists_outcome_of_overwrite hclean
  obtain ⟨others, hothers⟩ := exists_outcome_of_overwrite hother
  have hboth := sameOutcome_citizensBy_joined hclean hother .overwrite
  rw [hcitizens, hothers] at hboth
  refine ⟨_, _, _, citizens, others, rfl, hcitizens, rfl, hothers, rfl, ?_⟩
  rcases hboth.cases with ⟨all, hall, heq⟩ | ⟨_, _, -, herror, -⟩
  · exact hall.trans heq.symm
  · contradiction

/-- The first text ends with a comment. Something is wrong with one of the texts behind it, and not
with the other. -/
theorem parse_and_load_behind_comment :
    let a : SourceText := .ofString "@Era E {x: 1} # one"
    let wrong : SourceText := .ofString "x: [2"
    let b : SourceText := .ofString "@Era F {y: [2]}"
    let load := loadCitizens { limit := some .standard }
    (parse a .standard).diagnostics = [] ∧
      (parse (a.joined wrong) .standard).diagnostics =
        (parse wrong .standard).diagnostics.map (Diagnostic.moved 20) ∧
      ∃ first second both citizens others,
        load a = .ok first ∧ first.outcome = .ok citizens ∧
        load b = .ok second ∧ second.outcome = .ok others ∧
        load (a.joined b) = .ok both ∧ both.outcome = .ok (citizens ++ others) := by
  have hclean : (parse (.ofString "@Era E {x: 1} # one") .standard).diagnostics = [] := by
    decide +kernel
  obtain ⟨-, hdiagnostics, -⟩ := parse_and_load_joined _ (.ofString "x: [2") .standard hclean
  obtain ⟨-, -, hload⟩ := parse_and_load_joined _ (.ofString "@Era F {y: [2]}") .standard hclean
  exact ⟨hclean, hdiagnostics, hload (by decide +kernel) {}⟩

end Document

end WorldDoc
