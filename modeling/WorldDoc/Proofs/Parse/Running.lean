import WorldDoc.Proofs.Parse.Machine
import WorldDoc.Proofs.Parse.Reconstruction
import WorldDoc.Proofs.Parse.Reporting

/-!
# Running procedures

`Performs c s x a ts s'` says that `x`, run on any sound machine at the state `s`, ends without a
fault with the result `a`, that it has then added the elements `ts` to the innermost open node and
nothing else to the tree, and that the machine stands at `s'`. Procedures that follow one another
perform what each of them performs (`Performs.bind`).

Between opening and closing a node a procedure is not of this form. `Closes` is the relation for
what is left to do while a node is open: it is entered by `Performs.startNode`, carried on by
`Performs.closes` and left by `closes_finishNode`. So along every branch of a procedure each node
that is opened is closed.

A loop is watched by the place at which it looked last. `Fresh` says that the machine is beyond
that place. Taking at least one token makes every watch fresh again (`fresh_of_reads`), because
each token of a text ends before the next one starts.
-/

namespace WorldDoc.Parse

open State

variable {α β : Type} {c : Context} {s s' s'' : State} {ts us : List SyntaxTree} {a : α} {b : β}

/-- Run on a sound machine that stands for the session `p`, the procedure ends without a fault with
the result `a`, and the machine, sound again, stands for the session `p'`. -/
def EndsAt (x : Procedure α) (p : Session) (a : α) (p' : Session) : Prop :=
  ∀ m : Machine, m.Sound → m.session = p →
    ∃ m' : Machine, m'.Sound ∧ m'.session = p' ∧ x.run m = some (.ok (a, m'))

theorem endsAt_pure (p : Session) (a : α) : EndsAt (pure a) p a p :=
  fun m hsound hp => ⟨m, hsound, hp, rfl⟩

/-- What ends at a session is carried on from there. -/
theorem EndsAt.bind {x : Procedure α} {f : α → Procedure β} {p p' p'' : Session}
    (hx : EndsAt x p a p') (hf : EndsAt (f a) p' b p'') : EndsAt (x >>= f) p b p'' := by
  intro m hsound hp
  obtain ⟨m', hsound', hp', hrun⟩ := hx m hsound hp
  obtain ⟨m'', hsound'', hp'', hrun'⟩ := hf m' hsound' hp'
  refine ⟨m'', hsound'', hp'', ?_⟩
  rw [StateT.run_bind, hrun]
  exact hrun'

/-- From any session at the state `s` the procedure ends with the result `a`, after reading the
elements `ts`, at the state `s'`. -/
def Performs (c : Context) (s : State) (x : Procedure α) (a : α) (ts : List SyntaxTree)
    (s' : State) : Prop :=
  ∀ p : Session, p.context = c → p.state = s → EndsAt x p a (p.adoptAll ts s')

/-- Within a node that was opened at `offset` and has the elements `ts` so far, the procedure closes
that node, and around it the elements `us` are then read. -/
def Closes (c : Context) (kind : NodeKind) (offset : Nat) (ts : List SyntaxTree) (s : State)
    (x : Procedure α) (a : α) (us : List SyntaxTree) (s' : State) : Prop :=
  ∀ p : Session, p.context = c → p.builder.offset = offset →
    EndsAt x ((p.startNode (.node kind)).adoptAll ts s) a (p.adoptAll us s')

/-! ## Sequences of steps -/

/-- A procedure that only yields a result reads nothing. -/
theorem performs_pure (s : State) (a : α) : Performs c s (pure a) a [] s := by
  intro p _ hs
  rw [p.adoptAll_nil hs]
  exact endsAt_pure p a

/-- Two procedures perform one after the other, and what they read is joined. -/
theorem Performs.bind {x : Procedure α} {f : α → Procedure β} (hx : Performs c s x a ts s')
    (hf : Performs c s' (f a) b us s'') : Performs c s (x >>= f) b (ts ++ us) s'' := by
  intro p hc hs
  rw [← p.adoptAll_adoptAll]
  exact (hx p hc hs).bind (hf _ (by rw [Session.context_adoptAll, hc]) rfl)

/-- The result may be replaced at the end. -/
theorem Performs.then_pure {x : Procedure α} (hx : Performs c s x a ts s') (b : β) :
    Performs c s (x >>= fun _ => pure b) b ts s' := by
  have h := hx.bind (f := fun _ => pure b) (performs_pure s' b)
  rwa [List.append_nil] at h

/-- A step that adds nothing to the tree. -/
theorem Performs.look {x : Procedure α} {f : α → Procedure β} (hx : Performs c s x a [] s')
    (hf : Performs c s' (f a) b ts s'') : Performs c s (x >>= f) b ts s'' :=
  hx.bind hf

/-- A node is opened, and the rest of the procedure closes it. -/
theorem Performs.startNode {kind : NodeKind} {f : Unit → Procedure β}
    (hf : Closes c kind s.offset [] s (f ()) b us s') :
    Performs c s (Procedure.startNode kind >>= f) b us s' := by
  intro p hc hs
  have hopen : EndsAt (Procedure.startNode kind) p ()
      ((p.startNode (.node kind)).adoptAll [] s) := by
    intro m hsound hp
    refine ⟨{ m with builder := m.builder.start (.node kind) }, ?_, ?_, rfl⟩
    · exact ⟨hsound.length, hsound.tokens, hsound.current⟩
    · rw [← hs, ← hp]
      rfl
  exact hopen.bind (hf p hc (by rw [← hs]; rfl))

/-- Within an open node a procedure goes on reading. -/
theorem Performs.closes {x : Procedure α} {f : α → Procedure β} {kind : NodeKind} {offset : Nat}
    {read : List SyntaxTree} (hx : Performs c s x a ts s')
    (hf : Closes c kind offset (read ++ ts) s' (f a) b us s'') :
    Closes c kind offset read s (x >>= f) b us s'' := by
  intro p hc hoffset
  have hcontext : ((p.startNode (.node kind)).adoptAll read s).context = c := by
    rw [Session.context_adoptAll, ← hc]
    rfl
  refine (hx _ hcontext rfl).bind ?_
  rw [Session.adoptAll_adoptAll]
  exact hf p hc hoffset

/-- Closing a node ends without a fault where the tree can be closed. -/
theorem endsAt_finishNode {p p' : Session} {t : SyntaxTree} (h : p.finishNode = .ok (t, p')) :
    EndsAt Procedure.finishNode p () p' := by
  intro m hsound hp
  rw [← hp] at h
  cases hfinish : m.builder.finish with
  | error error =>
    rw [Session.finishNode, show m.session.builder = m.builder from rfl, hfinish] at h
    cases h
  | ok closed =>
    obtain ⟨node, builder⟩ := closed
    rw [Session.finishNode, show m.session.builder = m.builder from rfl, hfinish] at h
    obtain ⟨-, rfl⟩ := Prod.mk.inj (Except.ok.inj h)
    have hsource := TreeBuilder.finish_source hfinish
    refine ⟨{ m with builder := builder }, ?_, rfl, ?_⟩
    · exact ⟨hsource ▸ hsound.length, hsource ▸ hsound.tokens, hsound.current⟩
    · simp only [Procedure.finishNode, StateT.run_bind, StateT.run_get, pure_bind, hfinish]
      rfl

/-- The innermost node is closed over what was read since it was opened. -/
theorem closes_finishNode (kind : NodeKind) (offset : Nat) (ts : List SyntaxTree) (s : State) :
    Closes c kind offset ts s Procedure.finishNode ()
      [.branch c.source (.node kind) offset ts] s := by
  intro p hc hoffset
  have hfinish := p.finishNode_adoptAll kind ts s
  rw [hoffset, show p.builder.source = c.source from congrArg Context.source hc] at hfinish
  exact endsAt_finishNode hfinish

/-! ## The steps -/

/-- A step that only looks at the machine. -/
theorem performs_of_run {x : Procedure α}
    (h : ∀ m : Machine, m.Sound → m.session.context = c → m.session.state = s →
      x.run m = some (.ok (a, m))) : Performs c s x a [] s := by
  intro p hc hs
  rw [p.adoptAll_nil hs]
  intro m hsound hp
  exact ⟨m, hsound, hp, h m hsound (hp ▸ hc) (hp ▸ hs)⟩

/-- Looking at the kind of the current token changes nothing. -/
theorem performs_kind (s : State) : Performs c s Procedure.kind s.kind [] s := by
  refine performs_of_run fun m _ _ hs => ?_
  rw [← hs, Machine.kind_session]
  rfl

/-- Looking at the text of the current token changes nothing. -/
theorem performs_text (s : State) : Performs c s Procedure.text (String.ofList s.text) [] s := by
  refine performs_of_run fun m hsound _ hs => ?_
  rw [← hs, ← hsound.text_session]
  rfl

/-- Looking at the limit changes nothing. -/
theorem performs_limit (s : State) :
    Performs c s Procedure.limit c.limit.depth [] s := by
  refine performs_of_run fun m _ hc _ => ?_
  rw [← hc]
  rfl

/-- A report of the routines as a change to the reports alone. -/
theorem report_eq (s : State) (finding : Finding) (message : Option String) :
    s.report c finding message =
      { s with reports := (s.report c finding message).reports } := by
  unfold State.report record
  split
  · rfl
  · split <;> rfl

/-- The machine adds a report to its own as the routines add it to those of their state. -/
theorem run_record (found : Diagnostic) (m : Machine) :
    (Procedure.record found).run m =
      some (.ok ((), { m with reports := (m.session.state.record found).reports })) := by
  obtain ⟨limit, reader, current, reports, builder⟩ := m
  cases reports with
  | nil => rfl
  | cons latest earlier =>
    have hreports :
        (Machine.session ⟨limit, reader, current, latest :: earlier, builder⟩).state.reports =
          latest :: earlier := rfl
    simp only [Procedure.record, StateT.run_bind, StateT.run_get, pure_bind, record, hreports]
    split <;> rfl

/-- The machine reports at its current token, which is the one that the routines are at. -/
theorem run_report (finding : Finding) (message : Option String) (m : Machine) :
    (Procedure.report finding message).run m = some (.ok ((), { m with
      reports := (m.session.state.record (finding.at m.current.range message)).reports })) := by
  rw [Procedure.report, StateT.run_bind, StateT.run_get, pure_bind, run_record]

/-- A report is recorded and nothing else. -/
theorem performs_report (s : State) (finding : Finding) (message : Option String) :
    Performs c s (Procedure.report finding message) () [] (s.report c finding message) := by
  intro p hc hs m hsound hp
  subst hp hc hs
  refine ⟨{ m with reports := (m.session.state.report m.session.context finding message).reports },
    ⟨hsound.length, hsound.tokens, hsound.current⟩, ?_, ?_⟩
  · rw [report_eq]
    rfl
  · rw [run_report, State.report, hsound.range_session]

/-- Taking a token reads its leaf. -/
theorem performs_bump (s : State) :
    Performs c s Procedure.bump () (s.leaves c 1) (s.skip 1) := by
  intro p hc hs m hsound hp
  subst hp hc hs
  by_cases hkind : m.current.kind = .eof
  · have hahead : m.session.state.ahead = [] := if_pos hkind
    have hskip : m.session.state.skip 1 = m.session.state := by
      rw [State.skip, hahead]
      exact congrArg (State.mk · _ _) hahead.symm
    refine ⟨m, hsound, ?_, ?_⟩
    · rw [leaves, hahead, hskip]
      rfl
    · simp only [Procedure.bump, StateT.run_bind, StateT.run_get, pure_bind, if_pos hkind]
      rfl
  · have hahead : m.session.state.ahead =
        m.current :: m.reader.ahead.filter Token.isSignificant := if_neg hkind
    -- the machine after the token has been added and before the next one is drawn
    let added : Machine :=
      { m with builder := m.builder.token (.token m.current.kind) m.current.range }
    have hsource : added.builder.source = m.builder.source := TreeBuilder.add_source _ _
    have hdrawn : added.drawn.Sound :=
      Machine.Sound.drawn (by rw [hsource]; exact hsound.length)
        (by rw [hsource]; exact hsound.tokens)
    refine ⟨added.drawn, hdrawn, ?_, ?_⟩
    · show Session.mk m.limit added.drawn.ahead m.reports added.builder = _
      rw [hdrawn.ahead_drawn, leaves, State.skip, hahead]
      rfl
    · simp only [Procedure.bump, Procedure.draw, StateT.run_bind, StateT.run_get, pure_bind,
        if_neg hkind, TokenReader.readOn_eq]
      rfl

/-- Where nothing is taken the state stays as it is. -/
theorem eq_of_accept_eq_none {kind : TokenKind} (h : s.accept c kind = (none, s')) : s' = s := by
  unfold accept at h
  split at h
  · exact (Prod.mk.inj h).2.symm
  · split at h
    · exact absurd (Prod.mk.inj h).1 (by simp)
    · exact (Prod.mk.inj h).2.symm

/-- The procedure that takes a token of one kind accepts it, and tells whether there was one. -/
theorem performs_eat (s : State) (kind : TokenKind) (heof : kind ≠ .eof) :
    Performs c s (Procedure.eat kind) (s.accept c kind).1.isSome (s.accept c kind).1.toList
      (s.accept c kind).2 := by
  refine (performs_kind s).look ?_
  by_cases hkind : s.kind = kind
  · simp only [if_pos hkind]
    cases hahead : s.ahead with
    | nil =>
      rw [State.kind, hahead] at hkind
      exact absurd hkind.symm heof
    | cons t later =>
      rw [accept_of_ahead hahead (kind_of_ahead hahead ▸ hkind)]
      have h := (performs_bump (c := c) s).then_pure true
      rwa [leaves_one hahead] at h
  · rw [accept_of_kind_ne hkind]
    simp only [if_neg hkind]
    exact performs_pure s false

/-- The procedure that demands a token of one kind expects it, and tells whether there was one. -/
theorem performs_expect (s : State) (kind : TokenKind) (heof : kind ≠ .eof) :
    Performs c s (Procedure.expect kind) (s.expect c kind).1.isSome (s.expect c kind).1.toList
      (s.expect c kind).2 := by
  have heat := performs_eat (c := c) s kind heof
  by_cases hkind : s.kind = kind
  · cases hahead : s.ahead with
    | nil =>
      rw [State.kind, hahead] at hkind
      exact absurd hkind.symm heof
    | cons t later =>
      have ht : t.kind = kind := kind_of_ahead hahead ▸ hkind
      rw [accept_of_ahead hahead ht] at heat
      rw [expect_of_ahead hahead ht]
      exact heat.bind (performs_pure (s.skip 1) true)
  · rw [accept_of_kind_ne hkind] at heat
    rw [State.expect, accept_of_kind_ne hkind]
    refine heat.look ((performs_kind s).look ?_)
    exact (performs_report s _ _).then_pure false

/-! ## Progress -/

/-- The watch has looked last before the current token, if it has looked at all. -/
def Fresh (c : Context) (s : State) (w : Watch) : Prop :=
  w.position.all (· < (s.range c).start)

/-- A fresh watch raises no fault, and has looked at the current token afterwards. -/
theorem performs_assertProgress {w : Watch} (h : Fresh c s w) :
    Performs c s (Procedure.assertProgress w) ⟨some (s.range c).start⟩ [] s := by
  refine performs_of_run fun m hsound hc hs => ?_
  rw [Fresh, ← hc, ← hs, hsound.range_session] at h
  rw [← hc, ← hs, hsound.range_session]
  simp only [Procedure.assertProgress, StateT.run_bind, StateT.run_get, pure_bind, if_pos h]
  rfl

/-- What a procedure performs may be shown under the premise that the tokens ahead are an end of
those of the text. -/
theorem performs_of_suffix {x : Procedure α}
    (h : s.ahead <:+ significantTokens c.source.toList → Performs c s x a ts s') :
    Performs c s x a ts s' := by
  intro p hc hs m hsound hp
  refine h ?_ p hc hs m hsound hp
  rw [← hc, ← hs, ← hp]
  exact hsound.ahead_suffix

/-- Once a token has been taken the current token starts further on. -/
theorem fresh_of_reads (htext : s.ahead <:+ significantTokens c.source.toList)
    (hreads : Reads c s ts s') (hlt : s'.ahead.length < s.ahead.length) :
    Fresh c s' ⟨some (s.range c).start⟩ := by
  obtain ⟨taken, hahead, -⟩ := hreads.exists_taken
  have htaken : taken ≠ [] := by
    rintro rfl
    rw [hahead] at hlt
    exact absurd hlt (Nat.lt_irrefl _)
  have hstart := start_lt_start (hahead ▸ htext) htaken
  rw [← hahead, ← range_eq_rangeAt, ← range_eq_rangeAt] at hstart
  simpa only [Fresh, Option.all_some, decide_eq_true_eq] using hstart

end WorldDoc.Parse
