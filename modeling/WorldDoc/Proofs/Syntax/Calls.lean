import WorldDoc.Syntax.Builder

/-!
# Calls on a tree builder

The operations of a `TreeBuilder` yield the builder after them. Here they are written once more as
calls that change a builder in place, one assignment after the other. A call can break off at any
point, because it is out of place or because the bounds of a range are, and then the builder stays
as it was at that point. So that a refused call changes nothing, and that no range ever goes wrong,
does not lie in the form of the definitions. It is shown for each call: what it answers and what it
leaves is what the operation yields (`TreeBuilder.attempt_eq_outcome`).
-/

namespace WorldDoc.TreeBuilder

/-- Why a call breaks off: it is out of place, or the bounds of a range are. -/
inductive CallFault where
  | builder (error : BuilderError)
  | range (error : RangeError)
  deriving DecidableEq, Repr

/-- Something done to a builder. It yields a result or breaks off, and leaves the builder in some
state either way. -/
abbrev Action (α : Type) := ExceptT CallFault (StateM TreeBuilder) α

namespace Action

/-- A position, if the number is one. -/
def position (n : Int) : Action Nat :=
  match offsetOfInt n with
  | .ok offset => return offset
  | .error error => throw (.range error)

/-- A range, if the bounds are those of one. -/
def bounded (start stop : Int) : Action TextRange :=
  match TextRange.ofInts start stop with
  | .ok range => return range
  | .error error => throw (.range error)

/-- The range of an open node: from its first element to its last one, or the place at which it was
opened. -/
def rangeOf (n : OpenNode) : Action TextRange :=
  match n.elements.head?, n.elements.getLast? with
  | some first, some last =>
    bounded (min (first.range.start : Int) last.range.start)
      (max (first.range.stop : Int) last.range.stop)
  | _, _ => do
    let offset ← position n.offset
    bounded offset offset

/-- Puts an element at the end of the innermost open node, or of the roots. -/
def push (element : SyntaxTree) : Action Unit := do
  let b ← get
  match b.openNodes with
  | inner :: outer =>
    set { b with openNodes := { inner with elements := inner.elements ++ [element] } :: outer }
  | [] => set { b with roots := b.roots ++ [element] }

/-- Opens a node. -/
def startNode (kind : SyntaxKind) : Action Unit :=
  modify fun b => { b with openNodes := ⟨kind, [], b.offset⟩ :: b.openNodes }

/-- Takes a token in. -/
def token (kind : SyntaxKind) (range : TextRange) : Action Unit := do
  modify fun b => { b with offset := range.stop }
  push (.token kind range ((← get).source.slice range))

/-- Closes the innermost open node. -/
def finishNode : Action SyntaxTree := do
  let b ← get
  match b.openNodes with
  | [] => throw (.builder .nothingOpen)
  | inner :: outer =>
    set { b with openNodes := outer }
    let range ← rangeOf inner
    let node := .node inner.kind range (b.source.slice range) inner.elements
    push node
    return node

/-- Opens a root node, moves all roots into it, and closes it again. -/
def wrapRoots : Action SyntaxTree := do
  startNode (.node .root)
  modify fun b =>
    match b.openNodes with
    | inner :: outer =>
      { b with openNodes := { inner with elements := inner.elements ++ b.roots } :: outer }
    | [] => b
  modify fun b => { b with roots := [] }
  finishNode

/-- Makes one tree of all roots. A root node that stands alone is the tree already. -/
def complete : Action SyntaxTree := do
  let b ← get
  if !b.openNodes.isEmpty then throw (.builder .stillOpen)
  match b.roots with
  | [.node kind range text elements] =>
    if kind = .node .root then return .node kind range text elements
    wrapRoots
  | _ => wrapRoots

end Action

/-- A call on a builder. -/
inductive Call where
  | start (kind : SyntaxKind)
  | token (kind : SyntaxKind) (range : TextRange)
  | finish
  | complete

/-- What a call does. Those that close nodes answer with a tree. -/
def Call.action : Call → Action (Option SyntaxTree)
  | start kind => do
    Action.startNode kind
    return none
  | token kind range => do
    Action.token kind range
    return none
  | finish => return some (← Action.finishNode)
  | complete => return some (← Action.complete)

/-- What a call answers. -/
abbrev Answer := Except CallFault (Option SyntaxTree)

/-- The answer to a call, and the builder after it. -/
def attempt (b : TreeBuilder) (call : Call) : Answer × TreeBuilder := (call.action.run.run b).run

/-- The answers to calls made one after the other, whether or not they break off, and the builder
after all of them. -/
def run (b : TreeBuilder) : List Call → List Answer × TreeBuilder
  | [] => ([], b)
  | call :: later =>
    ((b.attempt call).1 :: ((b.attempt call).2.run later).1, ((b.attempt call).2.run later).2)

/-! ## Ranges -/

/-- A natural number is a position. -/
theorem position_eq (n : Nat) : Action.position n = pure n := by
  rw [Action.position, offsetOfInt, if_neg (by omega)]
  rfl

/-- The bounds of a range make this range. -/
theorem bounded_eq (range : TextRange) {start stop : Int} (hstart : start = range.start)
    (hstop : stop = range.stop) : Action.bounded start stop = pure range := by
  subst hstart hstop
  have hle := range.start_le_stop
  rw [Action.bounded, TextRange.ofInts, if_neg (by omega), dif_pos (by omega)]
  rfl

/-- The range of an open node can always be made. -/
theorem rangeOf_eq (n : OpenNode) :
    Action.rangeOf n = pure (SyntaxTree.span n.offset n.elements) := by
  obtain ⟨kind, elements, offset⟩ := n
  cases elements with
  | nil =>
    show Action.position offset >>= (fun offset => Action.bounded offset offset) = _
    rw [position_eq, pure_bind]
    exact bounded_eq (.empty offset) rfl rfl
  | cons first later =>
    unfold Action.rangeOf SyntaxTree.span
    simp only [List.head?_cons, List.getLast?_eq_some_getLast (List.cons_ne_nil first later)]
    exact bounded_eq (first.range.cover _) (by rw [TextRange.cover_start]; omega)
      (by rw [TextRange.cover_stop]; omega)

/-! ## What each call comes to -/

/-- What an operation yields, as the outcome of a call. A refusal leaves the builder as it is. -/
def settled (b : TreeBuilder) :
    Except BuilderError (SyntaxTree × TreeBuilder) → Except CallFault SyntaxTree × TreeBuilder
  | .ok (tree, next) => (.ok tree, next)
  | .error error => (.error (.builder error), b)

variable (b : TreeBuilder)

/-- Looking at the builder first is being given it. -/
theorem run_get_bind {α : Type} (f : TreeBuilder → Action α) :
    ((get >>= f).run.run b).run = ((f b).run.run b).run := rfl

/-- Closing a node, step by step, is the operation on the builder. -/
theorem run_finishNode : ((Action.finishNode).run.run b).run = b.settled b.finish := by
  obtain ⟨source, openNodes, roots, offset⟩ := b
  cases openNodes with
  | nil => rfl
  | cons inner outer =>
    simp only [Action.finishNode, rangeOf_eq]
    cases outer <;> rfl

/-- The roots come to stand under a root node, which is then the only root. -/
theorem run_wrapRoots (hopen : b.openNodes = []) :
    let wrapped := SyntaxTree.branch b.source (.node .root) b.offset b.roots
    ((Action.wrapRoots).run.run b).run = (.ok wrapped, { b with roots := [wrapped] }) := by
  obtain ⟨source, openNodes, roots, offset⟩ := b
  obtain rfl : openNodes = [] := hopen
  -- the builder just before the root node is closed
  have hfinish := run_finishNode
    { source := source, openNodes := [⟨.node .root, roots, offset⟩], roots := [], offset := offset }
  exact hfinish

/-- Roots other than a root node that stands alone come to stand under a root node. -/
theorem complete_of_not_alone (hopen : b.openNodes = [])
    (hroots : ∀ range text elements, b.roots ≠ [.node (.node .root) range text elements]) :
    b.complete = .ok (.branch b.source (.node .root) b.offset b.roots,
      { b with roots := [.branch b.source (.node .root) b.offset b.roots] }) := by
  rw [complete, hopen]
  simp only
  split
  · rename_i kind range text elements heq
    have hkind : kind ≠ .node .root := by
      rintro rfl
      exact hroots range text elements heq
    rw [if_neg hkind, heq]
  · rfl

/-- A root node that stands alone is the tree, and the builder stays as it is. -/
theorem complete_of_alone (hopen : b.openNodes = []) {range : TextRange} {text : String}
    {elements : List SyntaxTree} (hroots : b.roots = [.node (.node .root) range text elements]) :
    b.complete = .ok (.node (.node .root) range text elements, b) := by
  rw [complete, hopen, hroots]
  rfl

/-- Making the whole tree, step by step, is the operation on the builder. -/
theorem run_complete : ((Action.complete).run.run b).run = b.settled b.complete := by
  rw [Action.complete, run_get_bind]
  cases hopen : b.openNodes with
  | cons inner outer =>
    rw [complete, hopen]
    rfl
  | nil =>
    simp only [List.isEmpty_nil, Bool.not_true, Bool.false_eq_true, if_false]
    split
    · rename_i kind range text elements hroots
      by_cases hkind : kind = .node .root
      · rw [if_pos hkind]
        subst hkind
        rw [complete_of_alone b hopen hroots]
        rfl
      · rw [if_neg hkind, run_wrapRoots b hopen, complete_of_not_alone b hopen]
        · rfl
        · rintro r t es heq
          rw [hroots] at heq
          cases heq
          exact hkind rfl
    · rename_i hroots
      rw [run_wrapRoots b hopen, complete_of_not_alone b hopen fun r t es => hroots _ r t es]
      rfl

/-- What an action yields as the answer to a call. -/
theorem run_some (x : Action SyntaxTree) :
    ((do return some (← x) : Action (Option SyntaxTree)).run.run b).run =
      ((x.run.run b).run.1.map some, (x.run.run b).run.2) := by
  unfold ExceptT.run StateT.run Id.run
  simp only [bind, ExceptT.bind, ExceptT.mk, StateT.bind, ExceptT.bindCont]
  cases x b with
  | mk outcome next => cases outcome <;> rfl

/-- Opening a node is never refused. -/
theorem attempt_start (kind : SyntaxKind) :
    b.attempt (.start kind) = (.ok none, b.start kind) := rfl

/-- Taking a token in is never refused. -/
theorem attempt_token (kind : SyntaxKind) (range : TextRange) :
    b.attempt (.token kind range) = (.ok none, b.token kind range) := by
  obtain ⟨source, openNodes, roots, offset⟩ := b
  cases openNodes <;> rfl

/-- What comes of closing a node. -/
theorem attempt_finish :
    b.attempt .finish = ((b.settled b.finish).1.map some, (b.settled b.finish).2) := by
  rw [← run_finishNode]
  exact b.run_some _

/-- What comes of asking for the whole tree. -/
theorem attempt_complete :
    b.attempt .complete = ((b.settled b.complete).1.map some, (b.settled b.complete).2) := by
  rw [← run_complete]
  exact b.run_some _

/-- What the operation of a call yields, as an answer and a builder. -/
def outcome : Call → Answer × TreeBuilder
  | .start kind => (.ok none, b.start kind)
  | .token kind range => (.ok none, b.token kind range)
  | .finish => ((b.settled b.finish).1.map some, (b.settled b.finish).2)
  | .complete => ((b.settled b.complete).1.map some, (b.settled b.complete).2)

/-- Each call, step by step, comes to what its operation on the builder does. -/
theorem attempt_eq_outcome (call : Call) : b.attempt call = b.outcome call := by
  cases call with
  | start kind => exact b.attempt_start kind
  | token kind range => exact b.attempt_token kind range
  | finish => exact b.attempt_finish
  | complete => exact b.attempt_complete

end WorldDoc.TreeBuilder
