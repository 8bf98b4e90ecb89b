import Mathlib.Data.List.Induction
import Mathlib.Data.List.Nodup
import WorldDoc.Proofs.Check

/-!
# Rules are checked up to the first failure

A list of rules is looked over before any rule is checked. If a rule has the name of an earlier one,
or a code that begins otherwise than codes of rules do, the first such rule is what is wrong with
the list (`FaultOf`) and nothing is checked. The rules of an orderly list are checked one after the
other until one fails, and that failure is the outcome (`rules_checked_up_to_first_failure`).

## Shape of the proof

Which rules are checked is said by a loop over the list in which to check a rule is an operation of
any kind (`sweep`). Run with an operation that keeps a record it yields the rules that were checked
besides the first failure (`run_sweep_recorded`), and this is what `checks` lists. Both, the fault
of a list and the checks of a world, come from a relation that says where the list is cut; what is
reported of the rule at the cut is seen from the rule alone (`rule?_of_check`,
`isPrefix_code_of_check`).
-/

namespace WorldDoc.Rule

variable {rules before later : List Rule} {rule : Rule} {w : World} {failure : Failure}
  {fault : RuleListError}

/-! ## Lists of rules -/

/-- A list of rules as it has to be: no name comes twice, and all codes begin as codes of rules
do. -/
structure Orderly (rules : List Rule) : Prop where
  names : (rules.map name).Nodup
  codes : ∀ rule ∈ rules, codePrefix.toList <+: rule.code.toList

/-- What is wrong with a list of rules: behind an orderly beginning stands a rule that has the name
of an earlier one, or else a malformed code. -/
inductive FaultOf : List Rule → RuleListError → Prop where
  | repeatedName {before later : List Rule} {rule : Rule} (hbefore : Orderly before)
      (hname : rule.name ∈ before.map name) :
      FaultOf (before ++ rule :: later) (.repeatedName rule.name)
  | malformedCode {before later : List Rule} {rule : Rule} (hbefore : Orderly before)
      (hname : rule.name ∉ before.map name) (hcode : ¬ codePrefix.toList <+: rule.code.toList) :
      FaultOf (before ++ rule :: later) (.malformedCode rule.name rule.code)

/-- What is wrong with rules is so whatever rules come behind. -/
theorem FaultOf.append (h : FaultOf rules fault) (later : List Rule) :
    FaultOf (rules ++ later) fault := by
  cases h with
  | repeatedName hbefore hname =>
    rw [List.append_assoc]
    exact .repeatedName hbefore hname
  | malformedCode hbefore hname hcode =>
    rw [List.append_assoc]
    exact .malformedCode hbefore hname hcode

/-- A list is orderly or has a fault. -/
theorem orderly_or_faultOf (rules : List Rule) : Orderly rules ∨ ∃ fault, FaultOf rules fault := by
  induction rules using List.reverseRecOn with
  | nil => exact Or.inl ⟨List.nodup_nil, fun _ h => nomatch h⟩
  | append_singleton before rule ih =>
    rcases ih with hbefore | ⟨fault, hfault⟩
    · by_cases hname : rule.name ∈ before.map name
      · exact Or.inr ⟨_, .repeatedName hbefore hname⟩
      · by_cases hcode : codePrefix.toList <+: rule.code.toList
        · refine Or.inl ⟨?_, ?_⟩
          · rw [List.map_append, List.map_singleton]
            exact List.concat_eq_append ▸ hbefore.names.concat hname
          · rw [List.forall_mem_append, List.forall_mem_singleton]
            exact ⟨hbefore.codes, hcode⟩
        · exact Or.inr ⟨_, .malformedCode hbefore hname hcode⟩
    · exact Or.inr ⟨fault, hfault.append [rule]⟩

/-- Looking over an orderly beginning takes down its names and finds nothing. -/
theorem listFaultAfter?_append {seen : List String} (hbefore : Orderly before)
    (hseen : ∀ r ∈ before, r.name ∉ seen) (later : List Rule) :
    listFaultAfter? seen (before ++ later) =
      listFaultAfter? ((before.map name).reverse ++ seen) later := by
  induction before generalizing seen with
  | nil => rfl
  | cons rule others ih =>
    obtain ⟨hnew, hothers⟩ := List.nodup_cons.mp hbefore.names
    obtain ⟨hcode, hcodes⟩ := List.forall_mem_cons.mp hbefore.codes
    obtain ⟨hrule, hrest⟩ := List.forall_mem_cons.mp hseen
    have hstarts : rule.code.startsWith codePrefix = true := String.startsWith_string_iff.mpr hcode
    have hnext : ∀ r ∈ others, r.name ∉ rule.name :: seen := fun r hr =>
      List.not_mem_cons_of_ne_of_not_mem (fun heq => hnew (heq ▸ List.mem_map_of_mem hr)) (hrest r hr)
    rw [List.cons_append, listFaultAfter?, if_neg hrule, hstarts, ih ⟨hothers, hcodes⟩ hnext,
      List.map_cons, List.reverse_cons, List.append_assoc]
    rfl

/-- Behind an orderly beginning the look over the rules goes on, with the names so far. -/
theorem listFault?_append (hbefore : Orderly before) (later : List Rule) :
    listFault? (before ++ later) = listFaultAfter? (before.map name).reverse later := by
  rw [listFault?, listFaultAfter?_append hbefore (fun _ _ => List.not_mem_nil), List.append_nil]

/-- Nothing is found wrong with an orderly list. -/
theorem listFault?_of_orderly (h : Orderly rules) : listFault? rules = none := by
  have hlist := listFault?_append h []
  rwa [List.append_nil] at hlist

/-- What is wrong with a list of rules is found. -/
theorem listFault?_of_faultOf (h : FaultOf rules fault) : listFault? rules = some fault := by
  cases h with
  | repeatedName hbefore hname =>
    rw [listFault?_append hbefore, listFaultAfter?, if_pos (List.mem_reverse.mpr hname)]
  | @malformedCode before later rule hbefore hname hcode =>
    have hstarts : rule.code.startsWith codePrefix = false :=
      Bool.eq_false_iff.mpr fun h => hcode (String.startsWith_string_iff.mp h)
    rw [listFault?_append hbefore, listFaultAfter?, if_neg (by rwa [List.mem_reverse]), hstarts]
    rfl

/-- Nothing is found wrong exactly with orderly lists. -/
theorem listFault?_eq_none_iff : listFault? rules = none ↔ Orderly rules := by
  refine ⟨fun hnone => ?_, listFault?_of_orderly⟩
  rcases orderly_or_faultOf rules with horderly | ⟨fault, hfault⟩
  · exact horderly
  · rw [listFault?_of_faultOf hfault] at hnone
    contradiction

/-! ## Checks -/

/-- Goes through rules in order until one fails. To check a rule may be an operation of any kind. -/
def sweep {m : Type → Type} [Monad m] (probe : Rule → m (Option Failure)) :
    List Rule → m (Option Failure)
  | [] => pure none
  | rule :: later => do
    match ← probe rule with
    | none => sweep probe later
    | some failure => pure (some failure)

/-- Checks a rule and takes down that it was checked. -/
def recorded (w : World) (rule : Rule) : StateM (List Rule) (Option Failure) := do
  modify (· ++ [rule])
  return rule.check w

/-- Which of some rules are checked in a world, and which failure comes of it: all of them if none
fails, and else those up to the first that does. -/
inductive ChecksUpTo (w : World) : List Rule → List Rule → Option Failure → Prop where
  | passed {rules : List Rule} (hall : ∀ r ∈ rules, r.check w = none) : ChecksUpTo w rules rules none
  | failed {before later : List Rule} {rule : Rule} {failure : Failure}
      (hbefore : ∀ r ∈ before, r.check w = none) (hfails : rule.check w = some failure) :
      ChecksUpTo w (before ++ rule :: later) (before ++ [rule]) (some failure)

/-- What is checked in a world, and what comes of it, can be said of every list. -/
theorem exists_checksUpTo (w : World) (rules : List Rule) :
    ∃ checked failure?, ChecksUpTo w rules checked failure? := by
  cases hfind : rules.find? fun r => (r.check w).isSome with
  | none =>
    rw [List.find?_eq_none] at hfind
    exact ⟨rules, none, .passed fun r hr => Option.not_isSome_iff_eq_none.mp (hfind r hr)⟩
  | some rule =>
    obtain ⟨hfails, before, later, rfl, hbefore⟩ := List.find?_eq_some_iff_append.mp hfind
    obtain ⟨failure, hfailure⟩ := Option.isSome_iff_exists.mp hfails
    exact ⟨before ++ [rule], some failure,
      .failed (fun r hr => by simpa using hbefore r hr) hfailure⟩

/-- Rules that pass are checked, and then the later ones. -/
theorem checks_append (hbefore : ∀ r ∈ before, r.check w = none) (later : List Rule) :
    checks w (before ++ later) = before.map (fun r => (r, r.check w)) ++ checks w later := by
  induction before with
  | nil => rfl
  | cons rule others ih =>
    obtain ⟨hrule, hothers⟩ := List.forall_mem_cons.mp hbefore
    rw [List.cons_append, checks, hrule, ih hothers, List.map_cons, hrule, List.cons_append]

/-- The rules that are checked are those up to the first failure. -/
theorem ChecksUpTo.checks_eq {checked : List Rule} {failure? : Option Failure}
    (h : ChecksUpTo w rules checked failure?) :
    checks w rules = checked.map fun r => (r, r.check w) := by
  cases h with
  | passed hall =>
    have hlist := checks_append hall []
    rwa [List.append_nil, checks, List.append_nil] at hlist
  | failed hbefore hfails =>
    rw [checks_append hbefore, checks, hfails, List.map_append, List.map_singleton, hfails]

/-- The failure, if there is one, is that of the last rule that is checked. -/
theorem ChecksUpTo.findSome?_checks {checked : List Rule} {failure? : Option Failure}
    (h : ChecksUpTo w rules checked failure?) : (checks w rules).findSome? Prod.snd = failure? := by
  have hnone {rs : List Rule} (hall : ∀ r ∈ rs, r.check w = none) :
      (rs.map fun r => (r, r.check w)).findSome? Prod.snd = none := by
    rw [List.findSome?_map, List.findSome?_eq_none_iff]
    exact hall
  rw [h.checks_eq]
  cases h with
  | passed hall => exact hnone hall
  | failed hbefore hfails =>
    rw [List.map_append, List.findSome?_append, hnone hbefore]
    simp [hfails]

/-- The loop over the rules yields the first failure, and takes down the rules that were checked. -/
theorem run_sweep_recorded (w : World) (rules checked : List Rule) :
    (sweep (recorded w) rules).run checked =
      ((checks w rules).findSome? Prod.snd, checked ++ (checks w rules).map Prod.fst) := by
  induction rules generalizing checked with
  | nil => exact Prod.ext rfl (List.append_nil checked).symm
  | cons rule later ih =>
    cases hcheck : rule.check w with
    | none =>
      have hstep : (sweep (recorded w) (rule :: later)).run checked =
          (sweep (recorded w) later).run (checked ++ [rule]) := by
        simp [sweep, recorded, hcheck]
      rw [hstep, ih, checks, hcheck]
      simp
    | some failure =>
      simp only [checks, hcheck, List.findSome?_cons, List.map_cons, List.map_nil]
      simp only [sweep, recorded, hcheck, StateT.run_bind]
      rfl

/-- What a rule fails with: a failure of its own kind, or of the rules that are built in. -/
theorem failure_of_check (h : rule.check w = some failure) :
    failure = .missingOrigin rule.name ∨
      (∃ message field, failure = .typeMismatch message rule.name field) ∨
      (∃ name message, failure = .unresolvedReference rule.name name message) ∨
      ∃ message, failure = .ruleBroken message rule.name rule.code := by
  cases rule with
  | originExists name code =>
    obtain ⟨-, heq⟩ := Option.ite_none_right_eq_some.mp h
    exact Or.inl (Option.some.inj heq).symm
  | coreAnchorsResolved name code field =>
    obtain ⟨fault, -, rfl⟩ := Option.map_eq_some_iff.mp h
    cases fault with
    | noOrigin => exact Or.inl rfl
    | notList | notIdentifier => exact Or.inr (Or.inl ⟨_, _, rfl⟩)
    | undeclared name => exact Or.inr (Or.inr (Or.inl ⟨_, _, rfl⟩))
  | predicate name code holds message =>
    obtain ⟨-, heq⟩ := Option.ite_none_left_eq_some.mp h
    exact Or.inr (Or.inr (Or.inr ⟨_, (Option.some.inj heq).symm⟩))

/-- A failure names the rule that it is a failure of. -/
theorem rule?_of_check (h : rule.check w = some failure) : failure.rule? = some rule.name := by
  rcases failure_of_check h with rfl | ⟨message, field, rfl⟩ | ⟨name, message, rfl⟩ | ⟨message, rfl⟩ <;>
    rfl

/-- The codes of failures begin as those of rules do. -/
theorem isPrefix_code_of_check (h : rule.check w = some failure)
    (hcode : codePrefix.toList <+: rule.code.toList) :
    codePrefix.toList <+: failure.code.toList := by
  rcases failure_of_check h with rfl | ⟨message, field, rfl⟩ | ⟨name, message, rfl⟩ | ⟨message, rfl⟩
  · show codePrefix.toList <+: Finding.missingOrigin.code.toList
    decide
  · show codePrefix.toList <+: Finding.typeMismatch.code.toList
    decide
  · show codePrefix.toList <+: Finding.unresolvedReference.code.toList
    decide
  · -- a code that begins like this is not empty, so it is not replaced
    have hne : rule.code ≠ "" := fun hempty => absurd (hempty ▸ hcode) (by decide)
    rw [Failure.code, Failure.orElseEmpty]
    · exact hcode
    · exact hne

/-! ## Both passes -/

/-- Looks a list of rules over and goes through it, with an operation of any kind to check a
rule. -/
def enforceWith {m : Type → Type} [Monad m] (probe : Rule → m (Option Failure)) (rules : List Rule) :
    m (Except RuleListError (Option Failure)) :=
  match listFault? rules with
  | some fault => pure (.error fault)
  | none => .ok <$> sweep probe rules

/-- A list at fault is refused before any of its rules is checked. -/
theorem FaultOf.enforce_eq (h : FaultOf rules fault) (w : World) :
    enforce rules w = .error fault ∧
      (enforceWith (recorded w) rules).run [] = (.error fault, []) := by
  rw [enforce, enforceWith, listFault?_of_faultOf h]
  exact ⟨rfl, rfl⟩

/-- The outcome of a check: the first failure, if there is one. -/
def outcomeOf : Option Failure → Except Failure Unit
  | none => .ok ()
  | some failure => .error failure

/-- To check a world records the rules that are checked, one event for each, and ends with the
failure. -/
theorem ChecksUpTo.validate_eq {checked : List Rule} {failure? : Option Failure}
    (h : ChecksUpTo w rules checked failure?) :
    validate rules w = ⟨checked.map fun r => checkEvent (r, r.check w), outcomeOf failure?⟩ := by
  have hfirst := h.findSome?_checks
  rw [validate, h.checks_eq, List.map_map] at *
  rw [hfirst]
  cases failure? <;> rfl

/-- What is checked, recorded and yielded for an orderly list. -/
theorem Orderly.enforce_eq {checked : List Rule} {failure? : Option Failure} (h : Orderly rules)
    (hchecks : ChecksUpTo w rules checked failure?) :
    enforce rules w =
        .ok ⟨checked.map fun r => checkEvent (r, r.check w), outcomeOf failure?⟩ ∧
      (enforceWith (recorded w) rules).run [] = (.ok failure?, checked) := by
  rw [enforce, enforceWith, listFault?_of_orderly h, hchecks.validate_eq]
  refine ⟨rfl, ?_⟩
  have hsweep := run_sweep_recorded w rules []
  have hrecord : (checks w rules).map Prod.fst = checked := by
    rw [hchecks.checks_eq, List.map_map]
    exact List.map_id _
  rw [hchecks.findSome?_checks, hrecord, List.nil_append] at hsweep
  rw [StateT.run_map, hsweep]
  rfl

/-- More rules behind one that fails are not checked and change nothing. -/
theorem ChecksUpTo.append {checked : List Rule} (h : ChecksUpTo w rules checked (some failure))
    (later : List Rule) : ChecksUpTo w (rules ++ later) checked (some failure) := by
  cases h with
  | failed hbefore hfails =>
    rw [List.append_assoc]
    exact .failed hbefore hfails

/-- There is no failure exactly if all rules hold, those that are not checked included. -/
theorem ChecksUpTo.eq_none_iff {checked : List Rule} {failure? : Option Failure}
    (h : ChecksUpTo w rules checked failure?) :
    failure? = none ↔ ∀ r ∈ rules, r.check w = none := by
  cases h with
  | passed hall => exact iff_of_true rfl hall
  | failed hbefore hfails =>
    refine iff_of_false nofun fun hall => ?_
    rw [hall _ (List.mem_append_right _ List.mem_cons_self)] at hfails
    contradiction

/-- The failure is that of one of the rules, and nothing is checked behind it. -/
theorem ChecksUpTo.exists_last {checked : List Rule}
    (h : ChecksUpTo w rules checked (some failure)) :
    ∃ before rule, checked = before ++ [rule] ∧ rule ∈ rules ∧ rule.check w = some failure := by
  cases h with
  | failed hbefore hfails =>
    exact ⟨_, _, rfl, List.mem_append_right _ List.mem_cons_self, hfails⟩

/-- A world that is assembled on the way from a text is checked in these two passes as well. -/
theorem worldOf_eq_enforce {settings : Settings} {building : Traced Failure (List Citizen)}
    (hvalidate : settings.validate = true)
    (hassembled : (building >>= World.assemble settings.duplicateDeclarations).outcome = .ok w) :
    worldOf settings building = match enforce settings.chosenRules w with
      | .error fault => .error (.ruleList fault)
      | .ok checking => .ok do
        let _ ← building >>= World.assemble settings.duplicateDeclarations
        checking
        return w := by
  rw [worldOf_eq, hassembled, Settings.ruleFault?, if_pos hvalidate, enforce]
  cases listFault? settings.chosenRules with
  | some fault => rfl
  | none =>
    refine congrArg Except.ok ?_
    show Traced.bind _ _ = Traced.bind _ _
    rw [Traced.bind, Traced.bind, hassembled]
    simp only [checkedWorld, hvalidate, if_true]

/-- A list of rules is orderly, or something is wrong with it. What is wrong is the first rule that
has the name of an earlier one or else a malformed code; then the list is refused and no rule is
checked. The rules of an orderly list are checked in order, each once, up to the first that fails,
and all of them if none does. So much is recorded, and the outcome is that failure: it names the
rule that was checked last, and its code begins as the codes of rules do. The world passes exactly
if all rules hold of it. What fails by a list of rules fails in the same way, and on the same
record, by any longer list that is orderly. -/
theorem rules_checked_up_to_first_failure (rules : List Rule) (w : World) :
    (Orderly rules ∨ ∃ fault, FaultOf rules fault) ∧
    (∀ fault, FaultOf rules fault → enforce rules w = .error fault ∧
      (enforceWith (recorded w) rules).run [] = (.error fault, [])) ∧
    (Orderly rules → ∃ checked failure?, ChecksUpTo w rules checked failure? ∧
      (enforceWith (recorded w) rules).run [] = (.ok failure?, checked) ∧
      enforce rules w =
        .ok ⟨checked.map fun r => checkEvent (r, r.check w), outcomeOf failure?⟩ ∧
      (failure? = none ↔ ∀ r ∈ rules, r.check w = none) ∧
      ∀ failure, failure? = some failure → ∃ before rule, checked = before ++ [rule] ∧
        rule.check w = some failure ∧ failure.rule? = some rule.name ∧
        codePrefix.toList <+: failure.code.toList) ∧
    ∀ run failure later, enforce rules w = .ok run → run.outcome = .error failure →
      Orderly (rules ++ later) → enforce (rules ++ later) w = .ok run := by
  obtain ⟨checked, failure?, hchecks⟩ := exists_checksUpTo w rules
  refine ⟨orderly_or_faultOf rules, fun fault hfault => hfault.enforce_eq w, fun horderly => ?_,
    fun run failure later hrun houtcome hlonger => ?_⟩
  · obtain ⟨henforce, hrecord⟩ := horderly.enforce_eq hchecks
    refine ⟨checked, failure?, hchecks, hrecord, henforce, hchecks.eq_none_iff, ?_⟩
    rintro failure rfl
    obtain ⟨before, rule, hchecked, hmem, hfails⟩ := hchecks.exists_last
    exact ⟨before, rule, hchecked, hfails, rule?_of_check hfails,
      isPrefix_code_of_check hfails (horderly.codes rule hmem)⟩
  · rcases orderly_or_faultOf rules with horderly | ⟨fault, hfault⟩
    · rw [(horderly.enforce_eq hchecks).1] at hrun
      obtain rfl := Except.ok.inj hrun
      cases failure? with
      | none => contradiction
      | some failure => exact (hlonger.enforce_eq (hchecks.append later)).1
    · rw [(hfault.enforce_eq w).1] at hrun
      contradiction

/-- A world without an Origin fails by a rule that asks for one under another name. The rule behind
it is not checked. -/
theorem rules_checked_up_to_second :
    enforce ([.predicate "a" "VALIDATION_A" (fun _ => true) none, .originExists "b" "VALIDATION_B"] ++
        [.predicate "c" "VALIDATION_C" (fun _ => false) none]) .empty =
      .ok ⟨[.rulePassed "a", .ruleFailed "b" Finding.missingOrigin.message],
        .error (.missingOrigin "b")⟩ := by
  obtain ⟨-, -, -, hlonger⟩ := rules_checked_up_to_first_failure
    [.predicate "a" "VALIDATION_A" (fun _ => true) none, .originExists "b" "VALIDATION_B"] .empty
  have hshorter : listFault? [.predicate "a" "VALIDATION_A" (fun _ => true) none,
      .originExists "b" "VALIDATION_B"] = none := by
    decide +kernel
  have hlisted : listFault? ([.predicate "a" "VALIDATION_A" (fun _ => true) none,
      .originExists "b" "VALIDATION_B"] ++ [.predicate "c" "VALIDATION_C" (fun _ => false) none]) =
        none := by
    decide +kernel
  refine hlonger _ _ _ ?_ rfl (listFault?_eq_none_iff.mp hlisted)
  rw [enforce, hshorter]
  rfl

end WorldDoc.Rule
