import WorldDoc.Proofs.Lexical.Placement
import WorldDoc.Proofs.Parse.Procedure
import WorldDoc.Parse.Session

/-!
# The machine and its session

A machine draws its tokens one by one, a session holds all that are ahead. A machine that has drawn
its tokens from the text in order is `Sound`, and then it stands for a session (`Machine.session`)
that agrees with it on the current token, its range and its text.

What a routine reads it adds to the innermost open node, element by element. `Session.adoptAll` is
the session after several elements at once; adding some elements and then others is adding all of
them (`Session.adoptAll_adoptAll`), and closing a node over elements is adding one element to the
node around it (`Session.finishNode_adoptAll`).
-/

namespace WorldDoc

namespace TokenReader

/-- Reading on comes to an end, at the next significant token. -/
theorem readOn_eq (r : TokenReader) : r.readOn = some r.nextSignificant := by
  obtain ⟨length, read, ahead⟩ := r
  induction ahead generalizing read with
  | nil => rw [readOn, if_pos (by rfl)]; rfl
  | cons t later ih =>
    by_cases ht : t.isSignificant
    · rw [readOn, if_pos (by exact ht)]
      simp [nextSignificant, next, ht]
    · rw [readOn, if_neg (by exact ht)]
      show readOn ⟨length, t :: read, later⟩ = _
      rw [ih]
      simp [nextSignificant, ht]

/-- Reading on loses no token. -/
theorem tokens_nextSignificant (r : TokenReader) :
    r.nextSignificant.2.read.reverse ++ r.nextSignificant.2.ahead =
      r.read.reverse ++ r.ahead := by
  obtain ⟨length, read, ahead⟩ := r
  have hsplit : ahead.takeWhile (fun t => !t.isSignificant) ++
      ahead.dropWhile (fun t => !t.isSignificant) = ahead := List.takeWhile_append_dropWhile
  conv => rhs; rw [← hsplit]
  simp only [nextSignificant, next]
  split
  · rename_i hnil
    simp [hnil]
  · rename_i t later hcons
    simp [hcons]

/-- Drawing tokens leaves a reader with the same source. -/
theorem length_nextSignificant (r : TokenReader) : r.nextSignificant.2.length = r.length := by
  simp only [nextSignificant, next]
  split <;> rfl

/-- Either there is a significant token ahead, and it is read, or the end of the file is reached. -/
theorem nextSignificant_cases (r : TokenReader) :
    (r.nextSignificant.1.isSignificant ∧
      r.nextSignificant.2.read.head? = some r.nextSignificant.1 ∧
      r.ahead.filter Token.isSignificant =
        r.nextSignificant.1 :: r.nextSignificant.2.ahead.filter Token.isSignificant) ∨
    (r.nextSignificant.1 = .endOfFile r.length ∧ r.nextSignificant.2.ahead = [] ∧
      r.ahead.filter Token.isSignificant = []) := by
  have hfilter : r.ahead.filter Token.isSignificant =
      (r.ahead.dropWhile fun t => !t.isSignificant).filter Token.isSignificant := by
    induction r.ahead with
    | nil => rfl
    | cons t later ih => by_cases ht : t.isSignificant <;> simp [ht, ih]
  rw [hfilter]
  simp only [nextSignificant, next]
  split
  · rename_i hnil
    exact Or.inr ⟨rfl, hnil, by rw [hnil]; rfl⟩
  · rename_i t later hcons
    have ht : t.isSignificant := by
      have hhead := List.head?_dropWhile_not (fun t : Token => !t.isSignificant) r.ahead
      simpa [hcons] using hhead
    exact Or.inl ⟨ht, rfl, by rw [hcons, List.filter_cons_of_pos ht]⟩

end TokenReader

namespace Parse

open State

/-! ## The session of a machine -/

namespace Machine

/-- The tokens that the parser still sees, the current one first. -/
def ahead (m : Machine) : List Token :=
  if m.current.kind = .eof then []
  else m.current :: m.reader.ahead.filter Token.isSignificant

/-- The session that a machine stands for. -/
def session (m : Machine) : Session where
  limit := m.limit
  ahead := m.ahead
  reports := m.reports
  builder := m.builder

/-- The machine has drawn its tokens from the source: those read and those ahead are the tokens of
the source, and the current token is the latest one read, or the end of the file once all are
read. -/
structure Sound (m : Machine) : Prop where
  length : m.reader.length = m.builder.source.length
  tokens : m.reader.read.reverse ++ m.reader.ahead = tokens m.builder.source.toList
  current : (m.current.isSignificant ∧ m.reader.read.head? = some m.current) ∨
    (m.current = .endOfFile m.reader.length ∧ m.reader.ahead = [])

/-- The session of a machine is at the kind of the current token. -/
theorem kind_session (m : Machine) : m.session.state.kind = m.current.kind := by
  show State.kind ⟨m.ahead, _, _⟩ = _
  by_cases hkind : m.current.kind = .eof
  · rw [ahead, if_pos hkind, hkind]
    rfl
  · rw [ahead, if_neg hkind]
    rfl

/-- The machine with the next significant token as the current one. -/
def drawn (m : Machine) : Machine :=
  { m with current := m.reader.nextSignificant.1, reader := m.reader.nextSignificant.2 }

namespace Sound

variable {m : Machine}

/-- The current token of a sound machine is a token of its source, but for the end of the file. -/
theorem mem_tokens (h : m.Sound) (hkind : m.current.kind ≠ .eof) :
    m.current ∈ WorldDoc.tokens m.builder.source.toList := by
  rcases h.current with ⟨-, hhead⟩ | ⟨heof, -⟩
  · rw [← h.tokens]
    exact List.mem_append_left _ (List.mem_reverse.mpr (List.mem_of_mem_head? hhead))
  · rw [heof] at hkind
    exact absurd rfl hkind

/-- What the parser still sees is an end of what there is to see in the text. -/
theorem ahead_suffix (h : m.Sound) :
    m.ahead <:+ significantTokens m.builder.source.toList := by
  unfold ahead
  split
  · exact List.nil_suffix
  · rename_i hkind
    rcases h.current with ⟨hsignificant, hhead⟩ | ⟨heof, -⟩
    · obtain ⟨earlier, hread⟩ := List.head?_eq_some_iff.mp hhead
      refine ⟨earlier.reverse.filter Token.isSignificant, ?_⟩
      rw [significantTokens, ← h.tokens, hread, List.reverse_cons, List.append_assoc,
        List.filter_append, List.singleton_append, List.filter_cons_of_pos hsignificant]
    · rw [heof] at hkind
      exact absurd rfl hkind

/-- Drawing a token keeps a machine sound, whatever its current token was. -/
theorem drawn (hlength : m.reader.length = m.builder.source.length)
    (htokens : m.reader.read.reverse ++ m.reader.ahead = WorldDoc.tokens m.builder.source.toList) :
    m.drawn.Sound where
  length := (TokenReader.length_nextSignificant m.reader).trans hlength
  tokens := (TokenReader.tokens_nextSignificant m.reader).trans htokens
  current := by
    rcases TokenReader.nextSignificant_cases m.reader with ⟨ht, hhead, -⟩ | ⟨heof, hnil, -⟩
    · exact Or.inl ⟨ht, hhead⟩
    · refine Or.inr ⟨?_, hnil⟩
      show m.reader.nextSignificant.1 = .endOfFile m.reader.nextSignificant.2.length
      rw [heof, TokenReader.length_nextSignificant]

/-- Once a token is drawn, the tokens ahead are the significant ones that the reader still has. -/
theorem ahead_drawn (h : m.drawn.Sound) :
    m.drawn.ahead = m.reader.ahead.filter Token.isSignificant := by
  rcases TokenReader.nextSignificant_cases m.reader with ⟨ht, hhead, hfilter⟩ | ⟨heof, -, hfilter⟩
  · have hmem : m.drawn.current ∈ WorldDoc.tokens m.builder.source.toList := by
      rw [← show _ = WorldDoc.tokens m.builder.source.toList from h.tokens]
      exact List.mem_append_left _ (List.mem_reverse.mpr (List.mem_of_mem_head? hhead))
    rw [ahead, if_neg (kind_ne_eof_of_mem_tokens hmem), hfilter]
    rfl
  · have hkind : m.drawn.current.kind = .eof := congrArg (fun t : Token => t.kind) heof
    rw [ahead, if_pos hkind, hfilter]

/-- The machine sees the end of the file only once all tokens are read. -/
theorem at_end (h : m.Sound) (hkind : m.current.kind = .eof) :
    m.current = .endOfFile m.builder.source.length ∧ m.reader.ahead = [] := by
  rcases h.current with ⟨-, hhead⟩ | ⟨heof, hnil⟩
  · have hmem : m.current ∈ WorldDoc.tokens m.builder.source.toList := by
      rw [← h.tokens]
      exact List.mem_append_left _ (List.mem_reverse.mpr (List.mem_of_mem_head? hhead))
    exact absurd hkind (kind_ne_eof_of_mem_tokens hmem)
  · exact ⟨h.length ▸ heof, hnil⟩

/-- A machine at the end of the file knows all that is wrong with the tokens of the text. -/
theorem diagnostics_eq (h : m.Sound) (hkind : m.current.kind = .eof) :
    m.reader.diagnostics = lexicalDiagnostics m.builder.source.toList := by
  have htokens := h.tokens
  rw [(h.at_end hkind).2, List.append_nil] at htokens
  rw [TokenReader.diagnostics, lexicalDiagnostics, htokens]

/-- The session of a sound machine is at the range of the current token. -/
theorem range_session (h : m.Sound) :
    m.session.state.range m.session.context = m.current.range := by
  show State.range ⟨m.ahead, _, _⟩ _ = _
  by_cases hkind : m.current.kind = .eof
  · rw [ahead, if_pos hkind, (h.at_end hkind).1]
    rfl
  · rw [ahead, if_neg hkind]
    rfl

/-- The slice at the current token of a sound machine is the text that its session is at. -/
theorem text_session (h : m.Sound) :
    m.builder.source.slice m.current.range = String.ofList m.session.state.text := by
  show _ = String.ofList (State.text ⟨m.ahead, _, _⟩)
  by_cases hkind : m.current.kind = .eof
  · rw [ahead, if_pos hkind, (h.at_end hkind).1, SourceText.slice_eq]
    simp [Token.range, Token.stop, Token.endOfFile, State.text]
  · rw [ahead, if_neg hkind]
    exact slice_range_of_mem_tokens (h.mem_tokens hkind)

end Sound

/-- Before the first token of a text a machine stands for the session there. -/
theorem exists_start (source : SourceText) (limit : NestingLimit) :
    ∃ m, start source limit = some m ∧ m.Sound ∧ m.session = Session.start source limit := by
  let empty : Machine := ⟨limit, .ofText source.toList, .endOfFile 0, [], { source := source }⟩
  have hsound : empty.drawn.Sound := Sound.drawn rfl rfl
  refine ⟨empty.drawn, ?_, hsound, ?_⟩
  · rw [start, TokenReader.readOn_eq]
    rfl
  · show Session.mk limit empty.drawn.ahead [] { source := source } = _
    rw [hsound.ahead_drawn]
    rfl

end Machine

end Parse

/-! ## Elements that are read one after the other -/

/-- Adds finished elements to the innermost open node, or to the roots. -/
def TreeBuilder.addAll (b : TreeBuilder) (ts : List SyntaxTree) : TreeBuilder := ts.foldl add b

namespace TreeBuilder

variable (b : TreeBuilder) (ts us : List SyntaxTree)

/-- Elements are added one row after the other. -/
theorem addAll_append : b.addAll (ts ++ us) = (b.addAll ts).addAll us := List.foldl_append

/-- Adding elements does not change the source. -/
theorem addAll_source : (b.addAll ts).source = b.source := by
  induction ts generalizing b with
  | nil => rfl
  | cons t ts ih => exact (ih (b.add t)).trans (add_source b t)

/-- Adding elements does not depend on the offset. -/
theorem addAll_offset (n : Nat) :
    { b with offset := n }.addAll ts = { b.addAll ts with offset := n } := by
  induction ts generalizing b with
  | nil => rfl
  | cons t ts ih =>
    show addAll ({ b with offset := n }.add t) ts = _
    rw [add_offset, ih]
    rfl

/-- Closing a node does not change the source. -/
theorem finish_source {b b' : TreeBuilder} {t : SyntaxTree} (h : b.finish = .ok (t, b')) :
    b'.source = b.source := by
  unfold finish at h
  split at h
  · cases h
  · obtain ⟨-, rfl⟩ := Prod.mk.inj (Except.ok.inj h)
    exact add_source _ _

/-- Completing the tree does not change the source. -/
theorem complete_source {b b' : TreeBuilder} {t : SyntaxTree} (h : b.complete = .ok (t, b')) :
    b'.source = b.source := by
  unfold complete at h
  repeat' split at h
  all_goals cases h
  all_goals rfl

/-- All elements go to the node opened last. -/
theorem addAll_start (kind : SyntaxKind) : (b.start kind).addAll ts =
    { b with openNodes := ⟨kind, ts, b.offset⟩ :: b.openNodes } := by
  have hgeneral (us : List SyntaxTree) :
      { b with openNodes := ⟨kind, us, b.offset⟩ :: b.openNodes }.addAll ts =
        { b with openNodes := ⟨kind, us ++ ts, b.offset⟩ :: b.openNodes } := by
    induction ts generalizing us with
    | nil => rw [List.append_nil]; rfl
    | cons t ts ih =>
      show addAll { b with openNodes := ⟨kind, us ++ [t], b.offset⟩ :: b.openNodes } ts = _
      rw [ih, List.append_assoc]
      rfl
  exact hgeneral []

end TreeBuilder

namespace Parse

open State

variable {s s' : State} {ts us : List SyntaxTree}

/-- Adds the elements that were read, and moves to where reading ended. -/
def Session.adoptAll (p : Session) (ts : List SyntaxTree) (s : State) : Session where
  limit := p.limit
  ahead := s.ahead
  reports := s.reports
  builder := { p.builder.addAll ts with offset := s.offset }

namespace Session

variable (p : Session)

/-- A session keeps its context while it reads. -/
@[simp] theorem context_adoptAll : (p.adoptAll ts s).context = p.context := by
  show Context.mk (p.builder.addAll ts).source p.limit = _
  rw [TreeBuilder.addAll_source]
  rfl

/-- A session that reads nothing stays as it is. -/
theorem adoptAll_nil (h : p.state = s) : p.adoptAll [] s = p := by
  rw [← h]
  rfl

/-- To adopt one element is to adopt a row of one. -/
theorem adopt_eq_adoptAll (t : SyntaxTree) (s : State) : p.adopt (t, s) = p.adoptAll [t] s := by
  simp only [adopt, moveTo, adoptAll, TreeBuilder.add_offset]
  rfl

/-- What is read in two rows is read in one. -/
theorem adoptAll_adoptAll : (p.adoptAll ts s).adoptAll us s' = p.adoptAll (ts ++ us) s' := by
  simp only [adoptAll, TreeBuilder.addAll_offset, TreeBuilder.addAll_append]

/-- Closing a node over the elements that were read since it was opened. -/
theorem finishNode_adoptAll (kind : NodeKind) (ts : List SyntaxTree) (s : State) :
    ((p.startNode (.node kind)).adoptAll ts s).finishNode =
      .ok (.branch p.builder.source (.node kind) p.builder.offset ts,
        p.adoptAll [.branch p.builder.source (.node kind) p.builder.offset ts] s) := by
  have hopen : ((p.startNode (.node kind)).adoptAll ts s).builder =
      { p.builder with
        openNodes := ⟨.node kind, ts, p.builder.offset⟩ :: p.builder.openNodes
        offset := s.offset } := by
    show { (p.builder.start _).addAll ts with offset := s.offset } = _
    rw [TreeBuilder.addAll_start]
  rw [finishNode, hopen]
  simp only [TreeBuilder.finish, bind, Except.bind, pure, Except.pure, adoptAll, startNode]
  rw [← TreeBuilder.addAll_offset]
  rfl

end Session

end Parse

end WorldDoc
