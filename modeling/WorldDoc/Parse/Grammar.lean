import WorldDoc.Parse.State

/-!
# The grammar routines

A document is read by recursive descent:

    document    := declaration*
    declaration := DIRECTIVE name "{" (field ","?)* "}"
    field       := key ":" value
    value       := STRING | NUMBER | TRUE | FALSE | IDENTIFIER | list
    list        := "[" (value ("," value)* ","?)? "]"

Each routine may be entered at any state, whatever the current token is. It yields one element and
the state after it. Where a text departs from the grammar the routine reports it and goes on: tokens
that have no place end up under error nodes, lists and bodies end at a directive at the latest, and
what stands before the first directive or after a broken head is skipped up to the next directive.
So one mistake costs at most its own declaration.

Every routine ends because each round of its loops takes a token; the routines for values carry
that fact in their types, as they call each other.
-/

namespace WorldDoc.Parse

open State

/-- The tokens that name a declaration or a field. -/
def isNameToken : TokenKind → Bool
  | .identifier | .string => true
  | _ => false

/-- The tokens at which the body of a declaration ends. -/
def endsBody : TokenKind → Bool
  | .rbrace | .directive | .eof => true
  | _ => false

/-- The tokens at which a list ends. -/
def endsList : TokenKind → Bool
  | .rbracket | .rbrace | .directive | .eof => true
  | _ => false

/-- How many tokens stand before the next directive. -/
def beforeDirective (ahead : List Token) : Nat :=
  (ahead.takeWhile fun t => t.kind ≠ .directive).length

/-- How many tokens it takes until as many brackets are closed as opened, given how many more were
opened before. At least one token is taken. -/
def bracketedLength (opened : Int) : List Token → Nat
  | [] => 0
  | t :: later =>
    let balance := match t.kind with
      | .lbracket => opened + 1
      | .rbracket => opened - 1
      | _ => opened
    if balance = 0 then 1 else bracketedLength balance later + 1

/-- An error node over what stands before the next directive. If `current` is set the current token
is taken too, directive or not. -/
def skipToDirective (c : Context) (current : Bool) (s : State) : SyntaxTree × State :=
  let forced := if current then 1 else 0
  s.wrap c .error (forced + beforeDirective (s.ahead.drop forced))

/-- Reports that the current list is nested too deep. -/
def reportTooDeep (c : Context) (s : State) : State :=
  s.report c .nestingTooDeep s!"{Finding.nestingTooDeep.message} Limit is {c.limit.depth}."

/-- Reports that no value starts at the current token. -/
def reportNoValue (c : Context) (s : State) : State :=
  s.report c .expectedValue s!"{Finding.expectedValue.message}, found {s.kind.display}"

/-- A routine that reads a value if one starts at the current token. It takes a token at least if it
finds a value. -/
structure ValueRoutine where
  run : State → Option SyntaxTree × State
  progress (s : State) :
    (run s).2.ahead.length + (if (run s).1.isSome then 1 else 0) ≤ s.ahead.length

/-- A routine that reads a list. It takes a token at least if one is left. -/
structure ListRoutine where
  run : State → SyntaxTree × State
  progress (s : State) : (run s).2.ahead.length ≤ s.ahead.length - 1

/-- A list nested too deep is skipped with everything between its brackets. -/
def tooDeep (c : Context) : ListRoutine where
  run s := (reportTooDeep c s).wrap c .error (bracketedLength 0 s.ahead)
  progress s := by
    unfold bracketedLength
    grind [reportTooDeep, report_ahead, skip_ahead, wrap]

/-- A value is a single token or, at a bracket, a list. -/
def valueOf (c : Context) (list : ListRoutine) : ValueRoutine where
  run s :=
    if s.kind = .lbracket then (some (list.run s).1, (list.run s).2)
    else match ValueKind.ofToken? s.kind with
      | some kind => (some (s.wrap c (.value kind) 1).1, s.skip 1)
      | none => (none, reportNoValue c s)
  progress s := by
    have hpos : s.kind = .lbracket ∨ (ValueKind.ofToken? s.kind).isSome → 0 < s.ahead.length := by
      intro h
      apply List.length_pos_iff.mpr
      intro hnil
      simp [State.kind, hnil, ValueKind.ofToken?] at h
    have := list.progress s
    grind [reportNoValue, report_ahead, skip_ahead, wrap]

/-- The elements of a list with the commas between them, up to the end of the list. After a value
without a comma nothing more is read; a token that starts no value goes under an error node. -/
def items (c : Context) (element : ValueRoutine) (s : State) : List SyntaxTree × State :=
  if endsList s.kind then ([], s)
  else
    match _h : element.run s with
    | (none, next) =>
      let later := items c element (next.skip 1)
      ((next.wrap c .error 1).1 :: later.1, later.2)
    | (some value, next) =>
      match _ha : next.accept c .comma with
      | (none, _) => ([value], next)
      | (some comma, after) =>
        let later := items c element after
        (value :: comma :: later.1, later.2)
  termination_by s.ahead.length
  decreasing_by
    all_goals
      have hne : s.ahead ≠ [] := by
        intro hnil
        simp_all [State.kind, endsList]
      have := List.length_pos_iff.mpr hne
      have := element.progress s
    · simp_all
      omega
    · have := accept_ahead_length_le next c .comma
      simp_all
      omega

/-- The items of a list use up no tokens but those ahead. -/
theorem items_ahead_length_le (c : Context) (element : ValueRoutine) (s : State) :
    (items c element s).2.ahead.length ≤ s.ahead.length := by
  fun_induction items c element s with
  | case1 => simp
  | case2 s _ next h later ih =>
    have := element.progress s
    simp only [h, skip_ahead, List.length_drop] at this ih
    simp only [later]
    omega
  | case3 s _ value next h _ ha =>
    have := element.progress s
    simp_all
    omega
  | case4 s _ value next h comma after ha later ih =>
    have := element.progress s
    have := accept_ahead_length_le next c .comma
    simp_all [later]
    omega

/-- A list is a bracket, its elements, and a closing bracket. -/
def listOf (c : Context) (element : ValueRoutine) : ListRoutine where
  run s :=
    let inner := items c element (s.skip 1)
    let close := inner.2.expect c .rbracket
    (.branch c.source (.node (.value .list)) s.offset
      (s.leaves c 1 ++ (inner.1 ++ close.1.toList)), close.2)
  progress s := by
    have := items_ahead_length_le c element (s.skip 1)
    have := expect_ahead_length_le (items c element (s.skip 1)).2 c .rbracket
    simp_all
    omega

/-- The routine for lists when so many levels of nesting are left. -/
def lists (c : Context) : Nat → ListRoutine
  | 0 => tooDeep c
  | levels + 1 => listOf c (valueOf c (lists c levels))

/-- Reads a list when so many levels of nesting are left. -/
def list (c : Context) (levels : Nat) (s : State) : SyntaxTree × State := (lists c levels).run s

/-- Reads a value when so many levels of nesting are left. Where no value starts nothing is
taken. -/
def value (c : Context) (levels : Nat) (s : State) : Option SyntaxTree × State :=
  (valueOf c (lists c levels)).run s

/-- Reads a field: the current token as its key, a colon, a value. -/
def field (c : Context) (s : State) : SyntaxTree × State :=
  let key := s.wrap c .fieldKey 1
  let colon := key.2.expect c .colon
  let content := if colon.1.isSome then value c c.limit.depth colon.2 else (none, colon.2)
  (.branch c.source (.node .field) s.offset (key.1 :: (colon.1.toList ++ content.1.toList)),
    content.2)

/-- A field takes at least one token, where there is one. -/
theorem field_ahead_length_le (c : Context) (s : State) :
    (field c s).2.ahead.length ≤ s.ahead.length - 1 := by
  have h := expect_ahead_length_le (s.skip 1) c .colon
  have hv := (valueOf c (lists c c.limit.depth)).progress ((s.skip 1).expect c .colon).2
  simp only [skip_ahead, List.length_drop] at h
  simp only [field, value, wrap]
  grind

/-- The fields of a body, each with the comma after it if there is one. A token that starts no field
goes under an error node. -/
def body (c : Context) (s : State) : List SyntaxTree × State :=
  if endsBody s.kind then ([], s)
  else if isNameToken s.kind then
    let comma := (field c s).2.accept c .comma
    let later := body c comma.2
    ((field c s).1 :: (comma.1.toList ++ later.1), later.2)
  else
    let reported := s.report c .unexpectedToken
      s!"Unexpected {s.kind.display}; expected a field `key: value`"
    let later := body c (reported.skip 1)
    ((reported.wrap c .error 1).1 :: later.1, later.2)
  termination_by s.ahead.length
  decreasing_by
    all_goals
      have hne : s.ahead ≠ [] := by
        intro hnil
        simp_all [State.kind, endsBody]
      have := List.length_pos_iff.mpr hne
    · have := field_ahead_length_le c s
      have := accept_ahead_length_le (field c s).2 c .comma
      omega
    · simp
      omega

/-- The body of a block uses up no tokens but those ahead. -/
theorem body_ahead_length_le (c : Context) (s : State) :
    (body c s).2.ahead.length ≤ s.ahead.length := by
  fun_induction body c s with
  | case1 => simp
  | case2 s _ _ comma later ih =>
    have := field_ahead_length_le c s
    have := accept_ahead_length_le (field c s).2 c .comma
    simp only [later, comma] at ih ⊢
    omega
  | case3 s _ _ reported later ih =>
    simp only [later, reported, skip_ahead, report_ahead, List.length_drop] at ih ⊢
    omega

/-- Reads the name of a declaration, or reports that none is there. -/
def declarationName (c : Context) (s : State) : List SyntaxTree × State :=
  if isNameToken s.kind then ([(s.wrap c .name 1).1], s.skip 1)
  else ([], s.report c .expectedToken s!"Expected a declaration name, found {s.kind.display}")

/-- Reads the fields of a declaration in their braces. Where no brace opens, everything up to the
next directive is skipped. -/
def block (c : Context) (s : State) : List SyntaxTree × State :=
  match s.expect c .lbrace with
  | (none, next) =>
    let skipped := skipToDirective c false next
    ([skipped.1], skipped.2)
  | (some brace, next) =>
    let fields := body c next
    let close := fields.2.expect c .rbrace
    (brace :: (fields.1 ++ close.1.toList), close.2)

/-- Reads a declaration: its directive, a name, a block. A directive that is not known is reported
and skipped with everything up to the next one. -/
def declaration (c : Context) (s : State) : SyntaxTree × State :=
  match CitizenKind.ofDirective? s.text with
  | none =>
    skipToDirective c true (s.report c .unknownDirective
      s!"{Finding.unknownDirective.message} Found `{String.ofList s.text}`.")
  | some kind =>
    let name := declarationName c (s.skip 1)
    let content := block c name.2
    (.branch c.source (.node (.declaration kind)) s.offset
      (s.leaves c 1 ++ (name.1 ++ content.1)), content.2)

/-- Skipping takes the current token if it is told to. -/
theorem skipToDirective_ahead_length_le (c : Context) (current : Bool) (s : State) :
    (skipToDirective c current s).2.ahead.length ≤ s.ahead.length - current.toNat := by
  simp only [skipToDirective, wrap, skip_ahead, List.length_drop]
  cases current <;> grind

/-- The name of a declaration uses up no tokens but those ahead. -/
theorem declarationName_ahead_length_le (c : Context) (s : State) :
    (declarationName c s).2.ahead.length ≤ s.ahead.length := by
  unfold declarationName
  split <;> simp

/-- A block uses up no tokens but those ahead. -/
theorem block_ahead_length_le (c : Context) (s : State) :
    (block c s).2.ahead.length ≤ s.ahead.length := by
  have h := expect_ahead_length_le s c .lbrace
  unfold block
  split
  · rename_i next heq
    have := skipToDirective_ahead_length_le c false next
    simp_all
    omega
  · rename_i brace next heq
    have := body_ahead_length_le c next
    have := expect_ahead_length_le (body c next).2 c .rbrace
    simp_all
    omega

/-- A declaration takes at least its directive. -/
theorem declaration_ahead_length_le (c : Context) (s : State) :
    (declaration c s).2.ahead.length ≤ s.ahead.length - 1 := by
  unfold declaration
  split
  · have := skipToDirective_ahead_length_le c true (s.report c .unknownDirective
      s!"{Finding.unknownDirective.message} Found `{String.ofList s.text}`.")
    simpa using this
  · have := declarationName_ahead_length_le c (s.skip 1)
    have := block_ahead_length_le c (declarationName c (s.skip 1)).2
    simp_all
    omega

/-- Reports that no declaration starts at the current token and skips to where one may. -/
def strayTokens (c : Context) (s : State) : SyntaxTree × State :=
  skipToDirective c true (s.report c .unexpectedToken
    s!"Unexpected {s.kind.display}; expected a declaration such as `@Origin`")

/-- Stray tokens are taken at least one at a time. -/
theorem strayTokens_ahead_length_le (c : Context) (s : State) :
    (strayTokens c s).2.ahead.length ≤ s.ahead.length - 1 := by
  have := skipToDirective_ahead_length_le c true (s.report c .unexpectedToken
    s!"Unexpected {s.kind.display}; expected a declaration such as `@Origin`")
  simpa [strayTokens] using this

/-- The declarations of a document, with error nodes over what stands between them. -/
def declarations (c : Context) (s : State) : List SyntaxTree × State :=
  if s.kind = .eof then ([], s)
  else
    let next := if s.kind = .directive then declaration c s else strayTokens c s
    let later := declarations c next.2
    (next.1 :: later.1, later.2)
  termination_by s.ahead.length
  decreasing_by
    have hne : s.ahead ≠ [] := by
      intro hnil
      simp_all [State.kind]
    have := List.length_pos_iff.mpr hne
    have := declaration_ahead_length_le c s
    have := strayTokens_ahead_length_le c s
    split <;> omega

/-- Reads a whole document. -/
def sourceFile (c : Context) (s : State) : SyntaxTree × State :=
  let all := declarations c s
  (.branch c.source (.node .sourceFile) s.offset all.1, all.2)

end WorldDoc.Parse
