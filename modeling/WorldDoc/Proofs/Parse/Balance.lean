import WorldDoc.Proofs.Parse.Totality

/-!
# Routines in the middle of a parse

A parser can be steered by hand: nodes are opened and closed, tokens are taken, findings are
reported and grammar routines are run, in any order, wherever the parser stands. `Machine.Reachable`
are the machines that such steps lead to from the beginning of a text. On each of them every routine
comes to an end without a fault. The open nodes are as before, and the innermost one of them, or the
roots if there is none, has one node more, over the tokens that were taken
(`Machine.Reachable.routine_balanced`).

## Shape of the proof

What a routine does on a machine is known if the machine is sound. So it is shown of each step that
it keeps machines sound (`Steady`), whether the step is one that the routines are made of or one
that is only ever taken by hand. A run of steps is then sound by induction.
-/

namespace WorldDoc.Parse

open State

variable {α β : Type} {c : Context} {s : State} {m m' : Machine}

/-! ## Steering a parser -/

namespace Procedure

/-- Opens a node of any kind, be it one that no routine opens. -/
def openNode (kind : SyntaxKind) : Procedure Unit :=
  modify fun m => { m with builder := m.builder.start kind }

end Procedure

/-- The grammar routines. -/
inductive Routine where
  | value (depth : Int)
  | list (depth : Int)
  | field
  | declaration
  | sourceFile

namespace Routine

/-- What a routine does to a machine. Only a value may be found missing. -/
def procedure : Routine → Procedure Bool
  | value depth => Procedure.value depth
  | list depth => do Procedure.list depth; return true
  | field => do Procedure.field; return true
  | declaration => do Procedure.declaration; return true
  | sourceFile => do Procedure.sourceFile; return true

/-- What a routine reads, and the state after it. -/
def read (c : Context) (s : State) : Routine → Option SyntaxTree × State
  | value depth => Parse.value c (c.limit.levelsWithin depth) s
  | list depth => (Parse.list c (c.limit.levelsWithin (depth - 1)) s).map some id
  | field => (Parse.field c s).map some id
  | declaration => (Parse.declaration c s).map some id
  | sourceFile => (Parse.sourceFile c s).map some id

/-- What a routine makes of a session. -/
def session (p : Session) : Routine → Bool × Session
  | value depth => p.value depth
  | list depth => (true, p.list depth)
  | field => (true, p.field)
  | declaration => (true, p.declaration)
  | sourceFile => (true, p.sourceFile)

end Routine

/-- A step in steering a parser by hand. -/
inductive Step where
  | startNode (kind : SyntaxKind)
  | finishNode
  | bump
  | eat (kind : TokenKind)
  | expect (kind : TokenKind)
  | report (finding : Finding) (message : Option String)
  | record (found : Diagnostic)
  | assertProgress (w : Watch)
  | complete
  | routine (r : Routine)

/-- What a step does to a machine. -/
def Step.perform : Step → Procedure Unit
  | startNode kind => Procedure.openNode kind
  | finishNode => Procedure.finishNode
  | bump => Procedure.bump
  | eat kind => do let _ ← Procedure.eat kind
  | expect kind => do let _ ← Procedure.expect kind
  | report finding message => Procedure.report finding message
  | record found => Procedure.record found
  | assertProgress w => do let _ ← Procedure.assertProgress w
  | complete => do let _ ← Procedure.complete
  | routine r => do let _ ← r.procedure

/-- The machines that steps lead to from the beginning of a text. A step that breaks off leaves the
machine as it is, so it leads nowhere else. -/
inductive Machine.Reachable (source : SourceText) (limit : NestingLimit) : Machine → Prop where
  | start {m : Machine} (h : Machine.start source limit = some m) : Reachable source limit m
  | step {m m' : Machine} (before : Reachable source limit m) (step : Step)
      (h : step.perform.run m = some (.ok ((), m'))) : Reachable source limit m'

/-! ## What a routine reads -/

namespace Routine

/-- A machine does in a routine what the routine reads. -/
theorem performs (r : Routine) (s : State) :
    Performs c s r.procedure (r.read c s).1.isSome (r.read c s).1.toList (r.read c s).2 := by
  cases r with
  | value depth => exact performs_value s depth
  | list depth => exact (performs_list s depth).then_pure true
  | field => exact (performs_field s).then_pure true
  | declaration => exact (performs_declaration s).then_pure true
  | sourceFile => exact (performs_sourceFile s).then_pure true

/-- What a routine reads are the tokens that it takes. -/
theorem reads (r : Routine) (s : State) : Reads c s (r.read c s).1.toList (r.read c s).2 := by
  cases r with
  | value depth => exact reads_value _ s
  | list depth => exact reads_list _ s
  | field => exact reads_field s
  | declaration => exact reads_declaration s
  | sourceFile => exact reads_sourceFile s

/-- What is read for a list is a node. -/
theorem isNode_lists (levels : Nat) (s : State) : ((lists c levels).run s).1.isNode := by
  cases levels <;> rfl

/-- What is read for a declaration is a node. -/
theorem isNode_declaration (s : State) : (Parse.declaration c s).1.isNode := by
  unfold Parse.declaration
  split <;> rfl

/-- Whatever is read is a node. -/
theorem isNode (r : Routine) {t : SyntaxTree} (h : (r.read c s).1 = some t) : t.isNode := by
  cases r with
  | value depth =>
    simp only [read, Parse.value, valueOf] at h
    split at h
    · exact Option.some.inj h ▸ isNode_lists _ s
    · split at h
      · exact Option.some.inj h ▸ rfl
      · cases h
  | list depth => exact Option.some.inj h ▸ isNode_lists _ s
  | field => exact Option.some.inj h ▸ rfl
  | declaration => exact Option.some.inj h ▸ isNode_declaration s
  | sourceFile => exact Option.some.inj h ▸ rfl

/-- A document goes beyond the current token. -/
theorem sourceFile_ahead_length_le (heof : s.kind ≠ .eof) :
    (Parse.sourceFile c s).2.ahead.length ≤ s.ahead.length - 1 := by
  have hnext : (if s.kind = .directive then Parse.declaration c s
      else strayTokens c s).2.ahead.length ≤ s.ahead.length - 1 := by
    split
    · exact declaration_ahead_length_le c s
    · exact strayTokens_ahead_length_le c s
  show (declarations c s).2.ahead.length ≤ _
  rw [declarations, if_neg heof]
  exact Nat.le_trans (reads_declarations _).ahead_suffix.length_le hnext

/-- A routine that finds something takes the current token. -/
theorem ahead_length_lt (r : Routine) (heof : s.kind ≠ .eof) (hfound : (r.read c s).1.isSome) :
    (r.read c s).2.ahead.length < s.ahead.length := by
  have hpositive := length_ahead_pos heof
  have hone {n : Nat} (h : n ≤ s.ahead.length - 1) : n < s.ahead.length := by omega
  cases r with
  | value depth =>
    have hprogress := (valueOf c (lists c (c.limit.levelsWithin depth))).progress s
    rw [if_pos (by exact hfound)] at hprogress
    exact hprogress
  | list depth => exact hone ((lists c _).progress s)
  | field => exact hone (field_ahead_length_le c s)
  | declaration => exact hone (declaration_ahead_length_le c s)
  | sourceFile => exact hone (sourceFile_ahead_length_le heof)

/-- A session goes on to where the routine ends, with what it reads. -/
theorem session_eq (r : Routine) (p : Session) :
    r.session p = ((r.read p.context p.state).1.isSome,
      p.adoptAll (r.read p.context p.state).1.toList (r.read p.context p.state).2) := by
  cases r with
  | value depth =>
    show p.value depth = _
    rw [Session.value]
    show _ = ((Parse.value p.context (p.limit.levelsWithin depth) p.state).1.isSome,
      p.adoptAll (Parse.value p.context (p.limit.levelsWithin depth) p.state).1.toList
        (Parse.value p.context (p.limit.levelsWithin depth) p.state).2)
    split
    · rename_i next heq
      rw [heq]
      rfl
    · rename_i t next heq
      rw [heq, p.adopt_eq_adoptAll]
      rfl
  | list depth => exact Prod.ext rfl (p.adopt_eq_adoptAll _ _)
  | field => exact Prod.ext rfl (p.adopt_eq_adoptAll _ _)
  | declaration => exact Prod.ext rfl (p.adopt_eq_adoptAll _ _)
  | sourceFile => exact Prod.ext rfl (p.adopt_eq_adoptAll _ _)

end Routine

/-! ## Steps keep machines sound -/

/-- A procedure that leaves a machine sound wherever it ends, over the same text and limit. -/
def Steady (x : Procedure α) : Prop :=
  ∀ ⦃m : Machine⦄ ⦃a : α⦄ ⦃m' : Machine⦄, m.Sound → x.run m = some (.ok (a, m')) →
    m'.Sound ∧ m'.session.context = m.session.context

/-- A sequence that ends has both parts end. -/
theorem exists_run_of_bind {x : Procedure α} {f : α → Procedure β} {b : β} {m'' : Machine}
    (h : (x >>= f).run m = some (.ok (b, m''))) :
    ∃ a m', x.run m = some (.ok (a, m')) ∧ (f a).run m' = some (.ok (b, m'')) := by
  rw [StateT.run_bind] at h
  cases hx : x.run m with
  | none =>
    rw [hx] at h
    cases h
  | some outcome =>
    rw [hx] at h
    cases outcome with
    | error fault => cases h
    | ok result => exact ⟨result.1, result.2, rfl, h⟩

/-- To do nothing is steady. -/
theorem steady_pure (a : α) : Steady (pure a : Procedure α) := by
  intro m a' m' hsound hrun
  cases hrun
  exact ⟨hsound, rfl⟩

/-- Steady procedures one after the other are steady. -/
theorem Steady.bind {x : Procedure α} {f : α → Procedure β} (hx : Steady x)
    (hf : ∀ a, Steady (f a)) : Steady (x >>= f) := by
  intro m b m'' hsound hrun
  obtain ⟨a, m', hrun₁, hrun₂⟩ := exists_run_of_bind hrun
  obtain ⟨hsound₁, hcontext₁⟩ := hx hsound hrun₁
  obtain ⟨hsound₂, hcontext₂⟩ := hf a hsound₁ hrun₂
  exact ⟨hsound₂, hcontext₂.trans hcontext₁⟩

/-- What the routines are made of is steady. -/
theorem steady_of_performs {x : Procedure α}
    (h : ∀ c s, ∃ a ts s', Performs c s x a ts s') : Steady x := by
  intro m a m' hsound hrun
  obtain ⟨a₀, ts, s', hperforms⟩ := h m.session.context m.session.state
  obtain ⟨m₀, hsound₀, hsession, hrun₀⟩ := hperforms m.session rfl rfl m hsound rfl
  rw [hrun₀] at hrun
  cases hrun
  exact ⟨hsound₀, by rw [hsession, Session.context_adoptAll]⟩

/-- A change to the reports and to the tree in the making is steady. -/
theorem steady_of_source {x : Procedure α}
    (h : ∀ m a m', x.run m = some (.ok (a, m')) →
      ∃ builder reports, m' = { m with builder := builder, reports := reports } ∧
        builder.source = m.builder.source) : Steady x := by
  intro m a m' hsound hrun
  obtain ⟨builder, reports, rfl, hsource⟩ := h m a m' hrun
  refine ⟨⟨hsource ▸ hsound.length, hsource ▸ hsound.tokens, hsound.current⟩, ?_⟩
  exact congrArg (Context.mk · m.limit) hsource

/-- To open a node is steady. -/
theorem steady_openNode (kind : SyntaxKind) : Steady (Procedure.openNode kind) := by
  refine steady_of_source fun m a m' hrun => ?_
  cases hrun
  exact ⟨m.builder.start kind, m.reports, rfl, rfl⟩

/-- To close a node is steady. -/
theorem steady_finishNode : Steady Procedure.finishNode := by
  refine steady_of_source fun m a m' hrun => ?_
  simp only [Procedure.finishNode, StateT.run_bind, StateT.run_get, pure_bind] at hrun
  cases hfinish : m.builder.finish with
  | error error =>
    rw [hfinish] at hrun
    cases hrun
  | ok closed =>
    rw [hfinish] at hrun
    cases hrun
    exact ⟨closed.2, m.reports, rfl, TreeBuilder.finish_source hfinish⟩

/-- To complete the tree is steady. -/
theorem steady_complete : Steady Procedure.complete := by
  refine steady_of_source fun m a m' hrun => ?_
  simp only [Procedure.complete, StateT.run_bind, StateT.run_get, pure_bind] at hrun
  cases hcomplete : m.builder.complete with
  | error error =>
    rw [hcomplete] at hrun
    cases hrun
  | ok whole =>
    rw [hcomplete] at hrun
    cases hrun
    exact ⟨whole.2, m.reports, rfl, TreeBuilder.complete_source hcomplete⟩

/-- To look at the current kind is steady. -/
theorem steady_kind : Steady Procedure.kind :=
  steady_of_performs fun _ s => ⟨_, _, _, performs_kind s⟩

/-- To take a token is steady. -/
theorem steady_bump : Steady Procedure.bump :=
  steady_of_performs fun _ s => ⟨_, _, _, performs_bump s⟩

/-- To report a finding is steady. -/
theorem steady_report (finding : Finding) (message : Option String) :
    Steady (Procedure.report finding message) :=
  steady_of_performs fun _ s => ⟨_, _, _, performs_report s finding message⟩

/-- Also the end of the file can be asked for. -/
theorem steady_eat (kind : TokenKind) : Steady (Procedure.eat kind) := by
  refine steady_kind.bind fun current => ?_
  split
  · exact steady_bump.bind fun _ => steady_pure true
  · exact steady_pure false

/-- To take an expected token is steady. -/
theorem steady_expect (kind : TokenKind) : Steady (Procedure.expect kind) := by
  refine (steady_eat kind).bind fun found => ?_
  split
  · exact steady_pure true
  · exact steady_kind.bind fun _ => (steady_report _ _).bind fun _ => steady_pure false

/-- To add a report is steady. -/
theorem steady_record (found : Diagnostic) : Steady (Procedure.record found) := by
  refine steady_of_source fun m a m' hrun => ?_
  rw [run_record] at hrun
  cases hrun
  exact ⟨m.builder, _, rfl, rfl⟩

/-- To watch for progress is steady. -/
theorem steady_assertProgress (w : Watch) : Steady (Procedure.assertProgress w) := by
  refine steady_of_source fun m a m' hrun => ?_
  simp only [Procedure.assertProgress, StateT.run_bind, StateT.run_get, pure_bind] at hrun
  split at hrun
  · cases hrun
    exact ⟨m.builder, m.reports, rfl, rfl⟩
  · cases hrun

/-- Every routine is steady. -/
theorem steady_routine (r : Routine) : Steady r.procedure :=
  steady_of_performs fun _ s => ⟨_, _, _, r.performs s⟩

/-- Every step is steady. -/
theorem steady_perform (step : Step) : Steady step.perform := by
  cases step with
  | startNode kind => exact steady_openNode kind
  | finishNode => exact steady_finishNode
  | bump => exact steady_bump
  | eat kind => exact (steady_eat kind).bind fun _ => steady_pure ()
  | expect kind => exact (steady_expect kind).bind fun _ => steady_pure ()
  | report finding message => exact steady_report finding message
  | record found => exact steady_record found
  | assertProgress w => exact (steady_assertProgress w).bind fun _ => steady_pure ()
  | complete => exact steady_complete.bind fun _ => steady_pure ()
  | routine r => exact (steady_routine r).bind fun _ => steady_pure ()

/-- A machine that can be reached is sound, over the text and the limit that it started with. -/
theorem Machine.Reachable.sound {source : SourceText} {limit : NestingLimit}
    (h : Machine.Reachable source limit m) :
    m.Sound ∧ m.session.context = ⟨source, limit⟩ := by
  induction h with
  | start h =>
    obtain ⟨m, hstart, hsound, hsession⟩ := Machine.exists_start source limit
    cases h.symm.trans hstart
    exact ⟨hsound, by rw [hsession]; rfl⟩
  | step before step hrun ih =>
    obtain ⟨hsound, hcontext⟩ := steady_perform step ih.1 hrun
    exact ⟨hsound, hcontext.trans ih.2⟩

/-! ## Routines leave machines balanced -/

/-- Where no value starts, a machine is left as it is, but for its reports. -/
theorem run_value_of_none (depth : Int) {levels : Nat} {s : State}
    (hkind : s.kind = m.current.kind) (hnone : (value c levels s).1 = none) :
    ∃ reports, (Procedure.value depth).run m =
      some (.ok (false, { m with reports := reports })) := by
  simp only [value, valueOf, hkind] at hnone
  rw [Procedure.value]
  split at hnone
  · cases hnone
  · rename_i hbracket
    split at hnone
    · cases hnone
    · rename_i hscalar
      simp only [Procedure.kind, StateT.run_bind, StateT.run_get, pure_bind, StateT.run_pure,
        if_neg hbracket, hscalar, run_report]
      exact ⟨_, rfl⟩

/-- From one machine to another a node was added over the tokens that were taken, to the innermost
open node or to the roots, and to nothing else. -/
structure Appends (source : SourceText) (m : Machine) (tree : SyntaxTree) (taken : List Token)
    (m' : Machine) : Prop where
  node : tree.isNode
  ahead : m.ahead = taken ++ m'.ahead
  leaves : tree.leaves = taken.map fun t => (.token t.kind, t.range, source.slice t.range)
  place : match m.builder.openNodes with
    | [] => m'.builder.openNodes = [] ∧ m'.builder.roots = m.builder.roots ++ [tree]
    | inner :: outer =>
      m'.builder.openNodes = { inner with elements := inner.elements ++ [tree] } :: outer ∧
        m'.builder.roots = m.builder.roots
  progress : m.current.kind ≠ .eof → taken ≠ []

/-- What a routine leaves of a machine. It does to the machine what it does to its session, and only
a value may be found missing. -/
structure Balanced (source : SourceText) (r : Routine) (m : Machine) (found : Bool) (m' : Machine) :
    Prop where
  session : (found, m'.session) = r.session m.session
  appends : found = true → ∃ tree taken, Appends source m tree taken m'
  missing : found = false → (∃ depth, r = .value depth) ∧ m' = { m with reports := m'.reports }
  reports : m.reports <:+ m'.reports
  atEnd : r = .sourceFile → m'.current.kind = .eof

/-- Adding an element adds it to the innermost open node, or to the roots. -/
theorem appended_add (b : TreeBuilder) (t : SyntaxTree) :
    match b.openNodes with
    | [] => (b.add t).openNodes = [] ∧ (b.add t).roots = b.roots ++ [t]
    | inner :: outer =>
      (b.add t).openNodes = { inner with elements := inner.elements ++ [t] } :: outer ∧
        (b.add t).roots = b.roots := by
  obtain ⟨source, openNodes, roots, offset⟩ := b
  cases openNodes <;> exact ⟨rfl, rfl⟩

/-- Where a routine has read a node the machine has this node more, and has moved on. -/
theorem appends_of_read {r : Routine} {tree : SyntaxTree}
    (hread : (r.read m.session.context m.session.state).1 = some tree)
    (hsession : m'.session =
      m.session.adoptAll [tree] (r.read m.session.context m.session.state).2) :
    ∃ taken, Appends m.builder.source m tree taken m' := by
  have hreads := r.reads (c := m.session.context) m.session.state
  rw [hread] at hreads
  obtain ⟨taken, htaken, hleaves⟩ := hreads.exists_taken
  have hahead : m'.ahead = (r.read m.session.context m.session.state).2.ahead :=
    congrArg Session.ahead hsession
  have hbuilder : m'.builder = { m.builder.add tree with
      offset := (r.read m.session.context m.session.state).2.offset } :=
    congrArg Session.builder hsession
  refine ⟨taken, r.isNode hread, htaken.trans (by rw [hahead]), ?_, ?_, ?_⟩
  · rwa [Option.toList_some, SyntaxTree.leavesOf, SyntaxTree.leavesOf, List.append_nil] at hleaves
  · rw [hbuilder]
    exact appended_add m.builder tree
  · rintro heof rfl
    have hlt := r.ahead_length_lt (c := m.session.context) (s := m.session.state)
      (by rwa [Machine.kind_session]) (by rw [hread]; rfl)
    rw [htaken] at hlt
    exact absurd hlt (Nat.lt_irrefl _)

/-- On a sound machine a routine comes to an end without a fault and leaves it balanced. -/
theorem Machine.Sound.balanced (hsound : m.Sound) (r : Routine) :
    ∃ found m', r.procedure.run m = some (.ok (found, m')) ∧
      Balanced m.builder.source r m found m' := by
  obtain ⟨m', -, hsession, hrun⟩ :=
    r.performs m.session.state m.session rfl rfl m hsound rfl
  refine ⟨_, m', hrun, ?_, fun hfound => ?_, fun hmissing => ?_, ?_, ?_⟩
  · rw [r.session_eq, hsession]
  · obtain ⟨tree, hread⟩ := Option.isSome_iff_exists.mp hfound
    rw [hread] at hsession
    exact ⟨tree, appends_of_read hread hsession⟩
  · have hnone := Option.isSome_eq_false_iff.mp hmissing
    cases r with
    | value depth =>
      obtain ⟨reports, hvalue⟩ := run_value_of_none depth m.kind_session
        (Option.isNone_iff_eq_none.mp hnone)
      obtain ⟨-, rfl⟩ := Prod.mk.inj (Except.ok.inj (Option.some.inj (hrun.symm.trans hvalue)))
      exact ⟨⟨depth, rfl⟩, rfl⟩
    | list depth => cases hnone
    | field => cases hnone
    | declaration => cases hnone
    | sourceFile => cases hnone
  · rw [show m'.reports = _ from congrArg Session.reports hsession]
    exact (r.reads m.session.state).reports_suffix
  · rintro rfl
    rw [← m'.kind_session, hsession]
    exact sourceFile_kind m.session.state

/-- Wherever steps have led a parser, and however many nodes are open there, an end of the tokens of
the text is ahead, and a routine comes to an end without a fault and leaves the parser balanced. -/
theorem Machine.Reachable.routine_balanced {source : SourceText} {limit : NestingLimit}
    (h : Machine.Reachable source limit m) (r : Routine) :
    m.ahead <:+ significantTokens source.toList ∧
      ∃ found m', r.procedure.run m = some (.ok (found, m')) ∧ Balanced source r m found m' := by
  obtain ⟨hsound, hcontext⟩ := h.sound
  obtain rfl : m.builder.source = source := congrArg Context.source hcontext
  exact ⟨hsound.ahead_suffix, hsound.balanced r⟩

/-- A list within too many others is read where a bracket closes, under a node opened by hand. -/
theorem Machine.Reachable.routine_balanced_at_bracket :
    ∃ m m', Machine.Reachable (.ofString "]") .standard m ∧ m.current.kind = .rbracket ∧
      (Routine.list 100).procedure.run m = some (.ok (true, m')) ∧ m'.ahead = [] ∧
      ∃ tree, m'.builder.openNodes = [⟨.node .field, [tree], 0⟩] := by
  obtain ⟨m, hstart, -, hsession⟩ := Machine.exists_start (.ofString "]") .standard
  -- the machine with a node opened by hand
  let opened : Machine := { m with builder := m.builder.start (.node .field) }
  have hreachable : Machine.Reachable (.ofString "]") .standard opened :=
    .step (.start hstart) (.startNode (.node .field)) rfl
  have hahead : opened.ahead = significantTokens "]".toList := congrArg Session.ahead hsession
  have hbuilder : opened.builder.openNodes = [⟨.node .field, [], 0⟩] :=
    congrArg (fun p : Session => (p.builder.start (.node .field)).openNodes) hsession
  have hkind : opened.current.kind = .rbracket := by
    rw [← opened.kind_session, State.kind, show opened.session.state.ahead = _ from hahead]
    decide +kernel
  obtain ⟨-, found, m', hrun, hbalanced⟩ :=
    Machine.Reachable.routine_balanced hreachable (.list 100)
  cases found with
  | false =>
    obtain ⟨⟨depth, hvalue⟩, -⟩ := hbalanced.missing rfl
    cases hvalue
  | true =>
    obtain ⟨tree, taken, happends⟩ := hbalanced.appends rfl
    have hplace := happends.place
    rw [hbuilder] at hplace
    refine ⟨opened, m', hreachable, hkind, hrun, ?_, tree, hplace.1⟩
    -- there is one token, and at least one is taken
    have hlength : taken.length + m'.ahead.length = 1 := by
      rw [← List.length_append, ← happends.ahead, hahead]
      decide +kernel
    have htaken := List.length_pos_iff.mpr (happends.progress (by rw [hkind]; decide))
    exact List.length_eq_zero_iff.mp (by omega)

end WorldDoc.Parse
