import WorldDoc.Command.Run
import WorldDoc.Proofs.Command.Flags
import WorldDoc.Proofs.Log

/-!
# One outcome, told in three ways

A text can be loaded, which yields the world or the first failure; it can be checked, which yields a
report; and a file can be checked from the command line, which ends in an exit status. All three
tell the same outcome (`check_agrees`). What is reported of it is worked out from the failure alone,
and not from the stage at which it came up: whether the citizens could be built, and whether the
exit status is that of a syntax error. So it has to be known which failures each stage can have.

## Shape of the proof

`FailsAs p r` says that a failure in `r` is one of those in `p`. It is kept by sequences of
operations, and with that each stage is gone through once: what fails while citizens are built does
not concern the world (`failsBuilding_citizensBy`), and all that fails behind it does
(`World.failsBehind_assemble`, `Rule.failsBehind_validate`).

`EndsIn` says in which stage a text ends, with which citizens and which outcome, and `Refused` when
the settings are to blame. Loading and checking each go through the stages by themselves and are
found to do the same (`runCheck_eq_loadWorld`). So both come to one of these ends
(`load_and_check_agree`), from which everything else can be read off.

The command checks with settings that depend on nothing but the flags that are given
(`Command.settings_eq`).
-/

namespace WorldDoc

/-! ## Kinds of failure -/

/-- Whether a failure concerns the world as a whole, and not the text or a citizen. -/
def Failure.concernsWorld (f : Failure) : Bool := f.isConstruction || f.isValidation

/-- If there is a failure, it is one of these. -/
def FailsAs {ε α : Type} (p : ε → Prop) (r : Except ε α) : Prop := ∀ e, r = .error e → p e

namespace FailsAs

variable {ε α β : Type} {p : ε → Prop}

/-- What succeeds has no failure to account for. -/
theorem ok (a : α) : FailsAs p (.ok a : Except ε α) := fun _ h => nomatch h

/-- A failure that is one of these fails as one of these. -/
theorem error {e : ε} (h : p e) : FailsAs p (.error e : Except ε α) :=
  fun _ heq => Except.error.inj heq ▸ h

/-- A sequence fails as its parts do. -/
theorem bind {r : Except ε α} {f : α → Except ε β} (hr : FailsAs p r) (hf : ∀ a, FailsAs p (f a)) :
    FailsAs p (r >>= f) := by
  cases r with
  | error e => exact error (hr e rfl)
  | ok a => exact hf a

/-- A sequence of operations that record events fails as its parts do. -/
theorem traced {x : Traced ε α} {f : α → Traced ε β} (hx : FailsAs p x.outcome)
    (hf : ∀ a, FailsAs p (f a).outcome) : FailsAs p (x >>= f).outcome := by
  rw [Traced.outcome_bind]
  exact hx.bind hf

/-- An operation repeated along a list fails as a single one does. -/
theorem foldlM {f : α → β → Traced ε α} (hf : ∀ a b, FailsAs p (f a b).outcome) (bs : List β)
    (a : α) : FailsAs p (bs.foldlM f a).outcome := by
  induction bs generalizing a with
  | nil => exact ok a
  | cons b bs ih =>
    rw [List.foldlM_cons]
    exact (hf a b).traced ih

end FailsAs

/-! ## Citizens -/

/-- The conversion of nested lists fails only as that of a single member does. -/
theorem Nesting.failsAs_run {α β ε : Type} {p : ε → Prop} (n : Nesting α) (single : α → Except ε β)
    (list : List β → β) (hsingle : ∀ a, FailsAs p (single a)) (frame : Frame α β)
    (rest : List (Frame α β)) : FailsAs p (run n single list frame rest) := by
  fun_induction run n single list frame rest with
  | case1 done => exact .ok _
  | case2 done outer rest ih => simpa using ih
  | case3 a waiting done rest items hitems ih => exact ih
  | case4 a waiting done rest hnone b hb ih => exact ih
  | case5 a waiting done rest hnone e he => exact .error (hsingle a e he)

/-- What fails while citizens are built. -/
abbrev FailsBuilding {α : Type} (r : Except Failure α) : Prop :=
  FailsAs (fun f => f.concernsWorld = false) r

/-- No failure of converting a value concerns the world. -/
theorem failsBuilding_value (o : Outline) : FailsBuilding (Value.ofOutline o) := by
  have hscalar (o : Outline) : FailsBuilding (Value.ofScalar o) := by
    rw [Value.ofScalar]
    split
    · exact .ok _
    · exact .error rfl
  -- a list enters the machine that keeps the lists around it, a single value does not
  rw [Value.ofOutline, Nesting.convert]
  split
  · exact Nesting.failsAs_run _ _ _ hscalar _ _
  · exact hscalar o

namespace Citizen

/-- No failure of reading a field concerns the world. -/
theorem failsBuilding_readField (node : Outline) : FailsBuilding (readField node) := by
  unfold readField
  split
  · exact .error rfl
  · split
    · exact .error rfl
    · split
      · exact .error rfl
      · exact (failsBuilding_value _).bind fun v => .ok _

/-- No failure of adding a field concerns the world. -/
theorem failsBuilding_addChild (policy : DuplicatePolicy) (kind : CitizenKind) (name : String)
    (fields : NameTable Value) (child : Outline) :
    FailsBuilding (addChild policy kind name fields child).outcome := by
  unfold addChild
  split
  · exact .ok fields
  · refine FailsAs.traced (failsBuilding_readField child) fun pair => ?_
    dsimp only
    split
    · exact .error rfl
    · rename_i insertion hinsertion
      refine FailsAs.traced ?_ fun _ => .ok insertion.table
      rw [Traced.outcome_logIf]
      exact .ok ()

/-- No failure of building one citizen concerns the world. -/
theorem failsBuilding_ofOutline (policy : DuplicatePolicy) (node : Outline) :
    FailsBuilding (ofOutline policy node).outcome := by
  unfold ofOutline
  split
  · split
    · exact .error rfl
    · split
      · exact .error rfl
      · refine (FailsAs.foldlM (failsBuilding_addChild policy _ _) _ _).traced fun fields => ?_
        exact FailsAs.traced (.ok ()) fun _ => .ok _
  · exact .error rfl

/-- No failure of building the citizens of some nodes concerns the world. -/
theorem failsBuilding_ofNodes (policy : DuplicatePolicy) (nodes : List Outline) :
    FailsBuilding (ofNodes policy nodes).outcome := by
  induction nodes with
  | nil => exact .ok []
  | cons node later ih =>
    rw [ofNodes]
    split
    · exact (failsBuilding_ofOutline policy node).traced fun citizen => ih.traced fun _ => .ok _
    · exact FailsAs.traced (.ok ()) fun _ => ih

/-- No failure of building the citizens of a tree concerns the world. -/
theorem failsBuilding_allOfOutline (policy : DuplicatePolicy) (root : Outline) :
    FailsBuilding (allOfOutline policy root).outcome := by
  have hroot : FailsBuilding (unwrapRoot root) := by
    unfold unwrapRoot
    split
    · split
      · exact .ok _
      · exact .error rfl
    · exact .ok root
  refine FailsAs.traced hroot fun sourceFile => ?_
  exact (failsBuilding_ofNodes policy _).traced fun _ => FailsAs.traced (.ok ()) fun _ => .ok _

end Citizen

/-- Up to the citizens of a text nothing fails that concerns the world. -/
theorem failsBuilding_citizensBy (grammar : Grammar) (policy : DuplicatePolicy)
    (source : SourceText) : FailsBuilding (citizensBy grammar policy source).outcome := by
  refine FailsAs.traced ?_ (Citizen.failsBuilding_allOfOutline policy)
  cases (grammar.parse source).outcome with
  | error errors => exact .error rfl
  | ok outline => exact .ok outline

/-! ## Worlds -/

/-- What fails once the citizens are built. It has no place in the text. -/
abbrev FailsBehind {α : Type} (r : Except Failure α) : Prop :=
  FailsAs (fun f => f.concernsWorld = true ∧ f.range = none) r

/-- What fails while a world is assembled concerns the world, and has no place in the text. -/
theorem World.failsBehind_assemble (policy : DuplicatePolicy) (citizens : List Citizen) :
    FailsBehind (assemble policy citizens).outcome := by
  have hplace (w : World) (c : Citizen) : FailsBehind (place policy w c).outcome := by
    unfold place
    split
    · split
      · exact .error ⟨rfl, rfl⟩
      · exact .ok _
    · split
      · exact .error ⟨rfl, rfl⟩
      · refine FailsAs.traced ?_ fun _ => .ok _
        rw [Traced.outcome_logIf]
        exact .ok ()
  refine (FailsAs.foldlM hplace citizens empty).traced fun w => ?_
  exact FailsAs.traced (.ok ()) fun _ => .ok w

namespace Rule

/-- A rule that fails concerns the world, and has no place in the text. -/
theorem concernsWorld_of_check {w : World} {rule : Rule} {failure : Failure}
    (h : rule.check w = some failure) : failure.concernsWorld = true ∧ failure.range = none := by
  cases rule with
  | originExists name code =>
    simp only [check] at h
    split at h
    · obtain rfl := Option.some.inj h
      exact ⟨rfl, rfl⟩
    · contradiction
  | coreAnchorsResolved name code field =>
    obtain ⟨fault, -, rfl⟩ := Option.map_eq_some_iff.mp h
    cases fault <;> exact ⟨rfl, rfl⟩
  | predicate name code holds message =>
    simp only [check] at h
    split at h
    · contradiction
    · obtain rfl := Option.some.inj h
      exact ⟨rfl, rfl⟩

/-- What is noted beside a rule that was checked is what that rule says of the world. -/
theorem eq_check_of_mem_checks {w : World} {rules : List Rule} {result : Rule × Option Failure}
    (h : result ∈ checks w rules) : result.2 = result.1.check w := by
  induction rules with
  | nil => exact absurd h List.not_mem_nil
  | cons rule later ih =>
    rw [checks] at h
    split at h
    · rename_i hnone
      rcases List.mem_cons.mp h with rfl | h
      · exact hnone.symm
      · exact ih h
    · rename_i failure hsome
      obtain rfl := List.mem_singleton.mp h
      exact hsome.symm

/-- What fails while rules are checked concerns the world, and has no place in the text. -/
theorem failsBehind_validate (rules : List Rule) (w : World) :
    FailsBehind (validate rules w).outcome := by
  rw [validate]
  split
  · rename_i failure hfailure
    obtain ⟨result, hresult, hsome⟩ := List.exists_of_findSome?_eq_some hfailure
    rw [eq_check_of_mem_checks hresult] at hsome
    exact .error (concernsWorld_of_check hsome)
  · exact .ok ()

end Rule

/-! ## The end of a text -/

section Ends

variable (settings : Settings) (grammar : Grammar) (source : SourceText)

/-- Where a text ends, stage by stage: the citizens if they could be built, and the failure of the
first stage that has one, or the world. -/
inductive EndsIn : List Citizen → Except Failure World → Prop where
  | notBuilt {f : Failure}
      (hbuilt : (citizensBy grammar settings.duplicateFields source).outcome = .error f) :
      EndsIn [] (.error f)
  | notAssembled {cs : List Citizen} {f : Failure}
      (hbuilt : (citizensBy grammar settings.duplicateFields source).outcome = .ok cs)
      (hassembled : (World.assemble settings.duplicateDeclarations cs).outcome = .error f) :
      EndsIn cs (.error f)
  | invalid {cs : List Citizen} {w : World} {f : Failure}
      (hbuilt : (citizensBy grammar settings.duplicateFields source).outcome = .ok cs)
      (hassembled : (World.assemble settings.duplicateDeclarations cs).outcome = .ok w)
      (hvalidate : settings.validate = true)
      (hvalid : (Rule.validate settings.chosenRules w).outcome = .error f) :
      EndsIn cs (.error f)
  | valid {cs : List Citizen} {w : World}
      (hbuilt : (citizensBy grammar settings.duplicateFields source).outcome = .ok cs)
      (hassembled : (World.assemble settings.duplicateDeclarations cs).outcome = .ok w)
      (hvalid : settings.validate = true →
        (Rule.validate settings.chosenRules w).outcome = .ok ()) :
      EndsIn cs (.ok w)

/-- Settings that make no sense: a grammar with a limit for the usual one, or rules that are no list
of rules, which is found once a world is there to check them in. -/
inductive Refused : SetupError → Prop where
  | grammar {e : SetupError} (hgrammar : settings.chosenGrammar = .error e) : Refused e
  | rules {grammar : Grammar} {cs : List Citizen} {w : World} {fault : RuleListError}
      (hgrammar : settings.chosenGrammar = .ok grammar)
      (hbuilt : (citizensBy grammar settings.duplicateFields source).outcome = .ok cs)
      (hassembled : (World.assemble settings.duplicateDeclarations cs).outcome = .ok w)
      (hvalidate : settings.validate = true)
      (hfault : Rule.listFault? settings.chosenRules = some fault) : Refused (.ruleList fault)

variable {settings grammar source}

/-- The rules are checked in a world, if they are to be checked. -/
def checkedWorld (settings : Settings) (w : World) : Traced Failure World := do
  if settings.validate then Rule.validate settings.chosenRules w
  return w

/-- A world is assembled of the citizens before the rules are looked over, and checked after
that. -/
theorem worldOf_eq (settings : Settings) (building : Traced Failure (List Citizen)) :
    worldOf settings building =
      match (building >>= World.assemble settings.duplicateDeclarations).outcome,
        settings.ruleFault? with
      | .ok _, some fault => .error (.ruleList fault)
      | _, _ => .ok (building >>= World.assemble settings.duplicateDeclarations >>=
        checkedWorld settings) := rfl

/-- A text whose world has been assembled ends with the check of the rules. -/
theorem endsIn_checkedWorld {cs : List Citizen} {w : World}
    (hbuilt : (citizensBy grammar settings.duplicateFields source).outcome = .ok cs)
    (hassembled : (World.assemble settings.duplicateDeclarations cs).outcome = .ok w) :
    EndsIn settings grammar source cs (checkedWorld settings w).outcome := by
  rw [checkedWorld]
  cases hvalidate : settings.validate with
  | false => exact .valid hbuilt hassembled fun h => absurd h (by rw [hvalidate]; decide)
  | true =>
    simp only [if_true]
    cases hvalid : (Rule.validate settings.chosenRules w).outcome with
    | error f =>
      rw [Traced.outcome_bind_error _ hvalid]
      exact .invalid hbuilt hassembled hvalidate hvalid
    | ok _ =>
      rw [Traced.outcome_bind_ok _ hvalid]
      exact .valid hbuilt hassembled fun _ => hvalid

/-- The stages one after the other: the rules are refused, or the text ends in one of the stages. -/
theorem worldOf_cases (source : SourceText) (hgrammar : settings.chosenGrammar = .ok grammar) :
    (∃ e, Refused settings source e ∧
      worldOf settings (citizensBy grammar settings.duplicateFields source) = .error e) ∨
    ∃ run, worldOf settings (citizensBy grammar settings.duplicateFields source) = .ok run ∧
      EndsIn settings grammar source
        ((citizensBy grammar settings.duplicateFields source).outcome.toOption.getD [])
        run.outcome := by
  rw [worldOf_eq]
  -- the rules are looked at only once there is a world, so the stages are taken in their order
  cases hbuilt : (citizensBy grammar settings.duplicateFields source).outcome with
  | error f =>
    have hnone := Traced.outcome_bind_error (World.assemble settings.duplicateDeclarations) hbuilt
    rw [hnone]
    refine Or.inr ⟨_, rfl, ?_⟩
    rw [Traced.outcome_bind_error _ hnone]
    exact .notBuilt hbuilt
  | ok cs =>
    have hassemble := Traced.outcome_bind_ok (World.assemble settings.duplicateDeclarations) hbuilt
    cases hassembled : (World.assemble settings.duplicateDeclarations cs).outcome with
    | error f =>
      rw [hassembled] at hassemble
      rw [hassemble]
      refine Or.inr ⟨_, rfl, ?_⟩
      rw [Traced.outcome_bind_error _ hassemble]
      exact .notAssembled hbuilt hassembled
    | ok w =>
      rw [hassembled] at hassemble
      rw [hassemble]
      cases hfault : settings.ruleFault? with
      | some fault =>
        obtain ⟨hvalidate, hlist⟩ := Option.ite_none_right_eq_some.mp hfault
        exact Or.inl ⟨_, .rules hgrammar hbuilt hassembled hvalidate hlist, rfl⟩
      | none =>
        refine Or.inr ⟨_, rfl, ?_⟩
        rw [Traced.outcome_bind_ok _ hassemble]
        exact endsIn_checkedWorld hbuilt hassembled

/-- The outcome is that of the stages one after the other. -/
theorem EndsIn.outcome_eq {cs : List Citizen} {outcome : Except Failure World}
    (h : EndsIn settings grammar source cs outcome) :
    outcome = (do
      let citizens ← (citizensBy grammar settings.duplicateFields source).outcome
      let w ← (World.assemble settings.duplicateDeclarations citizens).outcome
      (checkedWorld settings w).outcome) := by
  cases h with
  | notBuilt hbuilt =>
    rw [hbuilt]
    rfl
  | notAssembled hbuilt hassembled =>
    rw [hbuilt]
    simp only [hassembled, bind, Except.bind]
  | @invalid cs w f hbuilt hassembled hvalidate hvalid =>
    have hchecked : (checkedWorld settings w).outcome = .error f := by
      rw [checkedWorld, hvalidate]
      exact Traced.outcome_bind_error _ hvalid
    rw [hbuilt]
    simp only [hassembled, hchecked, bind, Except.bind]
  | @valid cs w hbuilt hassembled hvalid =>
    have hchecked : (checkedWorld settings w).outcome = .ok w := by
      rw [checkedWorld]
      cases hvalidate : settings.validate with
      | false => rfl
      | true => exact Traced.outcome_bind_ok _ (hvalid hvalidate)
    rw [hbuilt]
    simp only [hassembled, hchecked, bind, Except.bind]

/-- A failure concerns the world exactly if it came up behind the building of the citizens. -/
theorem EndsIn.isOk_eq {cs : List Citizen} {outcome : Except Failure World} :
    EndsIn settings grammar source cs outcome →
      (citizensBy grammar settings.duplicateFields source).outcome.isOk =
        match outcome with
        | .ok _ => true
        | .error f => f.concernsWorld := by
  intro h
  cases h with
  | notBuilt hbuilt =>
    rw [hbuilt]
    exact (failsBuilding_citizensBy _ _ _ _ hbuilt).symm
  | notAssembled hbuilt hassembled =>
    rw [hbuilt]
    exact (World.failsBehind_assemble _ _ _ hassembled).1.symm
  | invalid hbuilt hassembled hvalidate hvalid =>
    rw [hbuilt]
    exact (Rule.failsBehind_validate _ _ _ hvalid).1.symm
  | valid hbuilt hassembled hvalid =>
    rw [hbuilt]
    rfl

end Ends

/-! ## Loading, checking, and the command -/

namespace CheckResult

/-- A report tells a world, and nothing that is wrong. -/
theorem tells_world_iff (r : CheckResult) (w : World) :
    (r.world? = some w ∧ r.failure? = none ∧ r.diagnostics = [] ∧ r.hasErrors = false) ↔
      r.outcome = .ok w := by
  cases houtcome : r.outcome <;>
    simp [world?, failure?, diagnostics, hasErrors, houtcome, Except.toOption]

/-- A report tells a failure, and no world. Of syntax errors it lists all, of any other failure the
one diagnostic. -/
theorem tells_failure_iff (r : CheckResult) (f : Failure) :
    (r.failure? = some f ∧ r.world? = none ∧ r.hasErrors = true ∧ r.diagnostics =
      match f with
      | .syntaxErrors errors => errors.first :: errors.others
      | other => [other.diagnostic]) ↔ r.outcome = .error f := by
  cases houtcome : r.outcome with
  | ok w => simp [failure?, houtcome]
  | error g =>
    have hlists : r.diagnostics = g.diagnostics := by
      simp [diagnostics, failure?, houtcome]
    rw [hlists]
    simp only [failure?, world?, hasErrors, houtcome, Except.toOption, Option.some.injEq,
      Option.isSome_some, true_and, Except.error.injEq, and_iff_left_iff_imp]
    rintro rfl
    cases g <;> rfl

/-- A report has it from the failure whether the citizens were built. -/
theorem citizensBuilt_eq (r : CheckResult) :
    r.citizensBuilt = match r.outcome with
      | .ok _ => true
      | .error f => f.concernsWorld := by
  rw [citizensBuilt, failure?]
  cases r.outcome <;> rfl

end CheckResult

section Citizens

variable {grammar : Grammar} {policy : DuplicatePolicy} {source : SourceText}
  {parsed : List LogEvent}

/-- No citizens are built of a text that departs from the grammar. -/
theorem citizensBy_of_error {errors : SyntaxErrors}
    (h : grammar.parse source = ⟨parsed, .error errors⟩) :
    citizensBy grammar policy source = ⟨parsed, .error (.syntaxErrors errors)⟩ := by
  rw [citizensBy, h]
  rfl

/-- The citizens of a text are built of its outline. -/
theorem citizensBy_of_ok {outline : Outline} (h : grammar.parse source = ⟨parsed, .ok outline⟩) :
    citizensBy grammar policy source =
      ⟨parsed ++ (Citizen.allOfOutline policy outline).events,
        (Citizen.allOfOutline policy outline).outcome⟩ := by
  rw [citizensBy, h]
  show Traced.bind _ _ = _
  rw [Traced.bind]
  rfl

end Citizens

/-- A check reports what loading yields: the citizens, if loading them succeeds, the outcome of
loading the world, and what was recorded on the way, with a failure behind it. -/
theorem runCheck_eq_loadWorld (settings : Settings) (source : SourceText) :
    runCheck settings source = (do
      let building ← loadCitizens settings source
      let run ← loadWorld settings source
      return {
        citizens := building.outcome.toOption.getD []
        outcome := run.outcome
        events := run.events ++ match run.outcome with
          | .ok _ => []
          | .error failure => [.checkFailed failure.code failure.message] }) := by
  rw [runCheck, loadWorld, loadCitizens]
  cases settings.chosenGrammar with
  | error e => rfl
  | ok grammar =>
    -- the chains are followed stage by stage; where one of them breaks off, so does the other
    simp only [bind, Except.bind, pure, Except.pure, worldOf, Traced.bind]
    rcases hparse : grammar.parse source with ⟨parsed, errors | outline⟩
    · rw [citizensBy_of_error hparse]
      rfl
    rw [citizensBy_of_ok hparse]
    dsimp only
    obtain ⟨built, failure | citizens⟩ := Citizen.allOfOutline settings.duplicateFields outline
    · rfl
    dsimp only
    obtain ⟨assembled, failure | w⟩ := World.assemble settings.duplicateDeclarations citizens
    · rfl
    dsimp only [Settings.ruleFault?]
    cases settings.validate with
    | false => simp [Traced.pure, Except.toOption]
    | true =>
      cases Rule.listFault? settings.chosenRules with
      | some fault => rfl
      | none =>
        obtain ⟨checked, failure | _⟩ := Rule.validate settings.chosenRules w
        · rfl
        · simp [Traced.pure, Except.toOption]

/-- Loading and checking refuse the same settings, and else they end alike. What has been built by
then is in the report. -/
theorem load_and_check_agree (settings : Settings) (source : SourceText) :
    (∃ e, Refused settings source e ∧ loadWorld settings source = .error e ∧
      runCheck settings source = .error e) ∨
    ∃ grammar run result, settings.chosenGrammar = .ok grammar ∧
      loadWorld settings source = .ok run ∧ runCheck settings source = .ok result ∧
      result.outcome = run.outcome ∧
      result.citizens =
        (citizensBy grammar settings.duplicateFields source).outcome.toOption.getD [] ∧
      EndsIn settings grammar source result.citizens run.outcome := by
  cases hgrammar : settings.chosenGrammar with
  | error e =>
    refine Or.inl ⟨e, .grammar hgrammar, ?_, ?_⟩
    · rw [loadWorld, loadCitizens, hgrammar]
      rfl
    · rw [runCheck_eq_loadWorld, loadCitizens, hgrammar]
      rfl
  | ok grammar =>
    have hload : loadWorld settings source =
        worldOf settings (citizensBy grammar settings.duplicateFields source) := by
      rw [loadWorld, loadCitizens, hgrammar]
      rfl
    rcases worldOf_cases source hgrammar with ⟨e, hrefused, herror⟩ | ⟨run, hrun, hends⟩
    · refine Or.inl ⟨e, hrefused, hload.trans herror, ?_⟩
      rw [runCheck_eq_loadWorld, loadCitizens, hgrammar, hload.trans herror]
      rfl
    · obtain ⟨result, hcheck, houtcome, hcitizens⟩ : ∃ result, runCheck settings source = .ok result ∧
          result.outcome = run.outcome ∧ result.citizens =
            (citizensBy grammar settings.duplicateFields source).outcome.toOption.getD [] := by
        rw [runCheck_eq_loadWorld, loadCitizens, hgrammar, hload.trans hrun]
        exact ⟨_, rfl, rfl, rfl⟩
      exact Or.inr ⟨grammar, run, result, rfl, hload.trans hrun, hcheck, houtcome, hcitizens,
        hcitizens ▸ hends⟩

namespace Command

/-- The exit status tells whether there is a failure, and if so whether it is of the syntax. -/
theorem status_report (i : Invocation) (path text : String) (result : CheckResult) :
    (report i path text result).status = match result.outcome with
      | .ok _ => 0
      | .error f => if f.isSyntax then 2 else 1 := by
  rw [report, CheckResult.failure?]
  cases result.outcome <;> rfl

/-- What an invocation asks for makes sense. -/
theorem not_refused (i : Invocation) (source : SourceText) (e : SetupError) :
    ¬ Refused i.settings source e := by
  intro h
  cases h with
  | grammar hgrammar => contradiction
  | rules hgrammar hbuilt hassembled hvalidate hfault =>
    rw [show i.settings.chosenRules = Rule.standard from rfl, Rule.listFault?_standard] at hfault
    contradiction

variable {read : String → Except ReadError (List UInt8)} {arguments : List String} {i : Invocation}
  {bytes : List UInt8} {text : String}

/-- There is a report on every text: how loading it under the settings of an invocation ends. -/
theorem exists_result (i : Invocation) (source : SourceText) :
    ∃ run result, loadWorld i.settings source = .ok run ∧ runCheck i.settings source = .ok result ∧
      result.outcome = run.outcome ∧
      EndsIn i.settings (.standard .standard) source result.citizens run.outcome := by
  rcases load_and_check_agree i.settings source with
    ⟨e, hrefused, -⟩ | ⟨grammar, run, result, hgrammar, hload, hcheck, houtcome, -, hends⟩
  · exact absurd hrefused (not_refused i _ e)
  · obtain rfl : Grammar.standard .standard = grammar := Except.ok.inj hgrammar
    exact ⟨run, result, hload, hcheck, houtcome, hends⟩

/-- A file that can be read is reported on as its text is. -/
theorem check_eq_report {result : CheckResult} (hread : read (simplifyPath i.file) = .ok bytes)
    (htext : textOf bytes = .ok text) (hcheck : runCheck i.settings (.ofString text) = .ok result) :
    Command.check read i = report i (simplifyPath i.file) text result := by
  have hcontents : readText read (simplifyPath i.file) = .ok text := by
    rw [readText, hread]
    show (textOf bytes).mapError Utf8.Fault.message = _
    rw [htext]
    rfl
  simp only [Command.check, hcontents, hcheck]

/-- The exit status for a file that can be read is that of its text. -/
theorem exists_run (harguments : Invocation.ofArguments arguments = .ok i)
    (hread : read (simplifyPath i.file) = .ok bytes) (htext : textOf bytes = .ok text) :
    ∃ outcome run, Command.run read arguments = .ok outcome ∧
      loadWorld i.settings (.ofString text) = .ok run ∧
      outcome.status = match run.outcome with
        | .ok _ => 0
        | .error f => if f.isSyntax then 2 else 1 := by
  obtain ⟨run, result, hload, hcheck, houtcome, -⟩ := exists_result i (.ofString text)
  refine ⟨report i (simplifyPath i.file) text result, run, ?_, hload, ?_⟩
  · rw [Command.run, harguments, ← check_eq_report hread htext hcheck]
    rfl
  · rw [status_report, houtcome]

/-- An invocation asks for the usual grammar and the usual rules, and otherwise for what the flags
say that are given. -/
theorem settings_eq (harguments : Invocation.ofArguments arguments = .ok i) :
    i.settings =
      let policy := if Given "--reject-duplicates" arguments then .reject else .overwrite
      { grammar := none, limit := none, duplicateFields := policy, duplicateDeclarations := policy
        rules := none, validate := !decide (Given "--no-validate" arguments) } := by
  obtain ⟨-, hvalidate, hreject, -⟩ := given_of_ofArguments harguments
  have hchecked : i.validate = !decide (Given "--no-validate" arguments) := by
    by_cases hgiven : Given "--no-validate" arguments
    · simp [hgiven, hvalidate.mpr hgiven]
    · simpa [hgiven] using mt hvalidate.mp hgiven
  rw [Invocation.settings, hchecked]
  simp only [hreject]

end Command

/-- An outcome from which a value can be had is that value. -/
theorem eq_ok_of_toOption {ε α : Type} {r : Except ε α} {a : α} (h : r.toOption = some a) :
    r = .ok a := by
  cases r with
  | error e => contradiction
  | ok b => exact congrArg Except.ok (Option.some.inj h)

/-- Loading a text and checking it fail alike where the settings make no sense. Otherwise both end
in the same stage. The report of the check has the world and no failure exactly if loading yields
that world, and the failure and no world exactly if loading yields that failure; its citizens are
those that can be built, and none if they cannot. The command, for a file that can be read as text,
ends in the status 0 exactly if the text is loaded, in 2 exactly if it departs from the grammar, and
in 1 exactly if anything else is wrong with it; the text is loaded with duplicates rejected, in
fields and in declarations, if the flag for that is given, and validated unless the flag against
that is. A file with flags around it is never refused. -/
theorem check_agrees :
    (∀ settings source,
      (∃ e, Refused settings source e ∧ loadWorld settings source = .error e ∧
        runCheck settings source = .error e) ∨
      ∃ grammar building run result, settings.chosenGrammar = .ok grammar ∧
        loadCitizens settings source = .ok building ∧
        loadWorld settings source = .ok run ∧ runCheck settings source = .ok result ∧
        EndsIn settings grammar source result.citizens run.outcome ∧
        (∀ w, (result.world? = some w ∧ result.failure? = none ∧ result.diagnostics = [] ∧
          result.hasErrors = false) ↔ run.outcome = .ok w) ∧
        (∀ f, (result.failure? = some f ∧ result.world? = none ∧ result.hasErrors = true ∧
          result.diagnostics = match f with
            | .syntaxErrors errors => errors.first :: errors.others
            | other => [other.diagnostic]) ↔ run.outcome = .error f) ∧
        match building.outcome with
        | .ok citizens => result.citizens = citizens ∧ result.citizensBuilt = true
        | .error _ => result.citizens = [] ∧ result.citizensBuilt = false) ∧
    (∀ read arguments i bytes text, Command.Invocation.ofArguments arguments = .ok i →
      read (Command.simplifyPath i.file) = .ok bytes → Command.textOf bytes = .ok text →
        let policy :=
          if Command.Given "--reject-duplicates" arguments then .reject else .overwrite
        let settings : Settings :=
          { grammar := none, limit := none, duplicateFields := policy, duplicateDeclarations := policy
            rules := none, validate := !decide (Command.Given "--no-validate" arguments) }
        i.file ∈ arguments ∧
        ∃ outcome run, Command.run read arguments = .ok outcome ∧
          loadWorld settings (.ofString text) = .ok run ∧
          (outcome.status = 0 ↔ ∃ w, run.outcome = .ok w) ∧
          (outcome.status = 2 ↔ ∃ errors, run.outcome = .error (.syntaxErrors errors)) ∧
          (outcome.status = 1 ↔
            ∃ f, run.outcome = .error f ∧ ∀ errors, f ≠ .syntaxErrors errors)) ∧
    ∀ before behind file, (∀ word ∈ before ++ behind, Command.IsFlag word) →
      file.toList.head? ≠ some '-' → '\x00' ∉ file.toList →
        ∃ i, Command.Invocation.ofArguments ("check" :: (before ++ file :: behind)) = .ok i ∧
          i.file = file := by
  refine ⟨?_, ?_, fun before behind file => Command.exists_invocation⟩
  · intro settings source
    refine (load_and_check_agree settings source).imp_right ?_
    rintro ⟨grammar, run, result, hgrammar, hload, hcheck, houtcome, hcitizens, hends⟩
    have hbuilding : loadCitizens settings source =
        .ok (citizensBy grammar settings.duplicateFields source) := by
      rw [loadCitizens, hgrammar]
      rfl
    refine ⟨grammar, _, run, result, hgrammar, hbuilding, hload, hcheck, hends, fun w => ?_,
      fun f => ?_, ?_⟩
    · rw [result.tells_world_iff, houtcome]
    · rw [result.tells_failure_iff, houtcome]
    · rw [hcitizens, result.citizensBuilt_eq, houtcome, ← hends.isOk_eq]
      cases (citizensBy grammar settings.duplicateFields source).outcome <;> exact ⟨rfl, rfl⟩
  · intro read arguments i bytes text harguments hread htext
    obtain ⟨outcome, run, hrun, hload, hstatus⟩ := Command.exists_run harguments hread htext
    rw [Command.settings_eq harguments] at hload
    obtain ⟨hfile, -⟩ := Command.given_of_ofArguments harguments
    refine ⟨hfile, outcome, run, hrun, hload, ?_⟩
    rw [hstatus]
    cases run.outcome with
    | ok w => simp
    | error f => cases f <;> simp [Failure.isSyntax]

/-- A key that comes twice ends the command with the status 1 if duplicates are rejected, for which
the beginning of the flag is enough. -/
theorem check_agrees_on_rejected_key :
    ∃ outcome, Command.run (fun _ => .ok "@Era E {a: 1, a: 2}\r\n".toUTF8.toList)
      ["check", "--rej", "f", "--no-val"] = .ok outcome ∧ outcome.status = 1 := by
  obtain ⟨-, hcommand, haccepted⟩ := check_agrees
  obtain ⟨i, hi, -⟩ := haccepted ["--rej"] ["--no-val"] "f" (by decide) (by decide) (by decide)
  obtain ⟨-, outcome, run, hrun, hload, -, -, hsemantic⟩ :=
    hcommand (fun _ => .ok "@Era E {a: 1, a: 2}\r\n".toUTF8.toList) _ i _ "@Era E {a: 1, a: 2}\n"
      hi rfl (eq_ok_of_toOption (by decide +kernel))
  let rejecting : Settings :=
    { duplicateFields := .reject, duplicateDeclarations := .reject, validate := false }
  have hrejecting : loadWorld rejecting (.ofString "@Era E {a: 1, a: 2}\n") = .ok run := hload
  have hfailed : ((loadWorld rejecting (.ofString "@Era E {a: 1, a: 2}\n")).toOption.map fun run =>
      match run.outcome with
      | .ok _ => true
      | .error f => f.isSyntax) = some false := by
    decide +kernel
  rw [hrejecting] at hfailed
  refine ⟨outcome, hrun, hsemantic.mpr ?_⟩
  cases houtcome : run.outcome with
  | ok w => simp [Except.toOption, houtcome] at hfailed
  | error f =>
    refine ⟨f, rfl, ?_⟩
    rintro errors rfl
    simp [Except.toOption, houtcome, Failure.isSyntax] at hfailed

end WorldDoc
