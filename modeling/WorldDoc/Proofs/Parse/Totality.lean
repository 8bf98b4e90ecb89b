import WorldDoc.Parse.Document
import WorldDoc.Proofs.Parse.Running

/-!
# Every text is parsed

Every procedure of the machine performs what the routine of the same name reads (`performs_value`,
`performs_list`, `performs_field`, `performs_declaration`, `performs_sourceFile`), whatever the
current token is and whatever stands behind it. So parsing a text step by step always ends, never
with a fault, and it makes of the text what the routines make of it (`runText_total`): one document
node under the root, over all significant tokens of the text.
-/

namespace WorldDoc.Parse

open State

variable {c : Context} {s s' : State} {ts : List SyntaxTree}

/-- Before the end of the file at least one token is ahead. -/
theorem length_ahead_pos (h : s.kind ≠ .eof) : 0 < s.ahead.length := by
  apply List.length_pos_iff.mpr
  intro hnil
  rw [State.kind, hnil] at h
  exact h rfl

/-! ## Skipping -/

/-- The tokens ahead in a text do not include the end of the file. -/
theorem kind_ne_eof_of_suffix {t : Token} {later : List Token} (hahead : s.ahead = t :: later)
    (htext : s.ahead <:+ significantTokens c.source.toList) : t.kind ≠ .eof := by
  have hmem : t ∈ significantTokens c.source.toList :=
    htext.subset (hahead ▸ List.mem_cons_self)
  exact kind_ne_eof_of_mem_tokens (List.mem_filter.mp hmem).1

/-- Taking a token in a node of its own is wrapping it. -/
theorem performs_bumpAs (s : State) (kind : NodeKind) :
    Performs c s (Procedure.bumpAs kind) () [(s.wrap c kind 1).1] (s.skip 1) :=
  Performs.startNode ((performs_bump s).closes (closes_finishNode kind s.offset _ _))

/-- The loop that takes tokens up to a directive ends and takes just those. -/
theorem performs_bumpToDirective (s : State) :
    Performs c s Procedure.bumpToDirective () (s.leaves c (beforeDirective s.ahead))
      (s.skip (beforeDirective s.ahead)) := by
  induction hlength : s.ahead.length generalizing s with
  | zero =>
    have hahead : s.ahead = [] := List.length_eq_zero_iff.mp hlength
    have hkind : s.kind = .eof := by rw [State.kind, hahead]
    rw [Procedure.bumpToDirective, hahead]
    refine (performs_kind s).look ?_
    simp only [hkind]
    exact performs_pure s ()
  | succ n ih =>
    obtain ⟨t, later, hahead⟩ := List.exists_cons_of_length_eq_add_one hlength
    refine performs_of_suffix fun htext => ?_
    have heof := kind_ne_eof_of_suffix hahead htext
    have hlater : (s.skip 1).ahead = later := skip_one_ahead hahead
    rw [Procedure.bumpToDirective]
    refine (performs_kind s).look ?_
    rw [kind_of_ahead hahead, hahead]
    by_cases hdirective : t.kind = .directive
    · have hbefore : beforeDirective (t :: later) = 0 := by simp [beforeDirective, hdirective]
      rw [hbefore]
      simp only [hdirective, true_or, if_true]
      exact performs_pure s ()
    · have hbefore : beforeDirective (t :: later) = 1 + beforeDirective later := by
        simp [beforeDirective, hdirective, Nat.add_comm]
      simp only [hdirective, heof, or_self, if_false]
      rw [hbefore, leaves_add, ← skip_skip]
      rw [hahead, List.length_cons] at hlength
      have hrest := ih (s.skip 1) (by rw [hlater]; omega)
      rw [hlater] at hrest
      exact (performs_bump s).bind hrest

/-- The loop that takes tokens while brackets are open ends and takes just those. -/
theorem performs_bumpBalanced (s : State) (balance : Int) :
    Performs c s (Procedure.bumpBalanced balance) ()
      (s.leaves c (bracketedLength balance s.ahead))
      (s.skip (bracketedLength balance s.ahead)) := by
  induction hlength : s.ahead.length generalizing s balance with
  | zero =>
    have hahead : s.ahead = [] := List.length_eq_zero_iff.mp hlength
    have hkind : s.kind = .eof := by rw [State.kind, hahead]
    rw [Procedure.bumpBalanced, hahead]
    refine (performs_kind s).look ?_
    simp only [hkind]
    exact performs_pure s ()
  | succ n ih =>
    obtain ⟨t, later, hahead⟩ := List.exists_cons_of_length_eq_add_one hlength
    refine performs_of_suffix fun htext => ?_
    have heof := kind_ne_eof_of_suffix hahead htext
    have hlater : (s.skip 1).ahead = later := skip_one_ahead hahead
    rw [hahead, List.length_cons] at hlength
    rw [Procedure.bumpBalanced]
    refine (performs_kind s).look ?_
    have hcount : bracketedLength balance (t :: later) =
        if Procedure.counted balance t.kind = 0 then 1
        else bracketedLength (Procedure.counted balance t.kind) later + 1 := by
      cases hkind : t.kind <;> simp [bracketedLength, Procedure.counted, hkind]
    rw [kind_of_ahead hahead, hahead, hcount]
    simp only [heof, if_false]
    by_cases hzero : Procedure.counted balance t.kind = 0
    · simp only [hzero, if_true]
      exact (performs_bump s).then_pure ()
    · simp only [hzero, if_false]
      rw [Nat.add_comm, leaves_add, ← skip_skip]
      have hrest := ih (s.skip 1) (Procedure.counted balance t.kind) (by rw [hlater]; omega)
      rw [hlater] at hrest
      exact (performs_bump s).bind hrest

/-- Skipping in an error node up to the next directive ends, with what the routine says it reads. -/
theorem performs_skipUntilDirective (s : State) (current : Bool) :
    Performs c s (Procedure.skipUntilDirective current) () [(skipToDirective c current s).1]
      (skipToDirective c current s).2 := by
  cases current with
  | false =>
    show Performs c s _ () [.branch _ _ _ (s.leaves c (0 + _))] (s.skip (0 + _))
    rw [Nat.zero_add]
    exact Performs.startNode ((performs_bumpToDirective s).closes
      (closes_finishNode .error s.offset _ _))
  | true =>
    show Performs c s _ () [.branch _ _ _ (s.leaves c (1 + _))] (s.skip (1 + _))
    rw [leaves_add, ← skip_skip]
    exact Performs.startNode ((performs_bump s).closes
      ((performs_bumpToDirective (s.skip 1)).closes (closes_finishNode .error s.offset _ _)))

/-- Skipping a bracketed group in an error node ends, with all of the group in the node. -/
theorem performs_skipBalancedBrackets (s : State) :
    Performs c s Procedure.skipBalancedBrackets ()
      [(s.wrap c .error (bracketedLength 0 s.ahead)).1]
      (s.wrap c .error (bracketedLength 0 s.ahead)).2 :=
  Performs.startNode ((performs_bumpBalanced s 0).closes (closes_finishNode .error s.offset _ _))

/-! ## Values and lists -/

/-- The procedure for values ends if that for lists, one level further in, does. -/
theorem performs_valueOf {list : ListRoutine} {depth : Int}
    (hlist : ∀ s, Performs c s (Procedure.list (depth + 1)) () [(list.run s).1] (list.run s).2)
    (s : State) :
    Performs c s (Procedure.value depth) ((valueOf c list).run s).1.isSome
      ((valueOf c list).run s).1.toList ((valueOf c list).run s).2 := by
  rw [Procedure.value]
  refine (performs_kind s).look ?_
  by_cases hbracket : s.kind = .lbracket
  · simp only [valueOf, if_pos hbracket]
    exact (hlist s).then_pure true
  · simp only [valueOf, if_neg hbracket]
    cases ValueKind.ofToken? s.kind with
    | none => exact (performs_report s _ _).then_pure false
    | some kind => exact (performs_bumpAs s (.value kind)).then_pure true

/-- A round of the loop over the elements of a list. -/
theorem performs_items_round {depth : Int} {w : Watch} (hends : ¬ endsList s.kind)
    (hfresh : Fresh c s w)
    (hround : Performs c s (do
      if ← Procedure.value depth then
        if ← Procedure.eat .comma then Procedure.items depth ⟨some (s.range c).start⟩
      else
        Procedure.bumpAs .error
        Procedure.items depth ⟨some (s.range c).start⟩) () ts s') :
    Performs c s (Procedure.items depth w) () ts s' := by
  rw [Procedure.items]
  refine (performs_kind s).look ?_
  simp only [if_neg hends]
  exact (performs_assertProgress hfresh).look hround

/-- The elements of a list are read if its element is. Each round of the loop takes a token: the
first one of an element, or the one that starts none. -/
theorem performs_items {element : ValueRoutine} {depth : Int}
    (helement : ∀ s, Performs c s (Procedure.value depth) (element.run s).1.isSome
      (element.run s).1.toList (element.run s).2)
    (hreads : ∀ s, Reads c s (element.run s).1.toList (element.run s).2) (s : State) :
    ∀ w, Fresh c s w →
      Performs c s (Procedure.items depth w) () (items c element s).1 (items c element s).2 := by
  fun_induction items c element s with
  | case1 s hends =>
    intro w hfresh
    rw [Procedure.items]
    refine (performs_kind s).look ?_
    simp only [if_pos hends]
    exact performs_pure s ()
  | case2 s hends next heq later ih =>
    intro w hfresh
    have hvalue := helement s
    have htaken := (hreads s).append (Reads.wrap (element.run s).2 .error 1)
    have hprogress := element.progress s
    simp only [heq] at hvalue htaken hprogress
    -- no value starts here, so the progress of this round is the token under the error node
    have hshorter : (next.skip 1).ahead.length < s.ahead.length := by
      have hpositive := length_ahead_pos (s := s) fun heof => hends (heof ▸ rfl)
      rw [skip_ahead, List.length_drop]
      omega
    refine performs_of_suffix fun htext => performs_items_round hends hfresh (hvalue.look ?_)
    simp only [Option.isSome_none, Bool.false_eq_true, if_false]
    exact (performs_bumpAs next .error).bind (ih _ (fresh_of_reads htext htaken hshorter))
  | case3 s hends value next heq same hcomma =>
    intro w hfresh
    have hvalue := helement s
    have heat := performs_eat (c := c) next .comma (by simp)
    simp only [heq] at hvalue
    have hsame : same = next := eq_of_accept_eq_none hcomma
    simp only [hcomma, hsame] at heat
    refine performs_items_round hends hfresh (hvalue.bind ?_)
    simp only [Option.isSome_some, if_true]
    exact heat.look (performs_pure next ())
  | case4 s hends value next heq comma after hcomma later ih =>
    intro w hfresh
    have hvalue := helement s
    have htaken := (hreads s).append (Reads.accept (element.run s).2 .comma)
    have hprogress := element.progress s
    have heat := performs_eat (c := c) next .comma (by simp)
    have haccept := accept_ahead_length_le next c .comma
    simp only [heq, hcomma] at hvalue htaken hprogress heat haccept
    -- here it is the first token of the value
    have hshorter : after.ahead.length < s.ahead.length := by
      simp only [Option.isSome_some, if_true] at hprogress
      omega
    refine performs_of_suffix fun htext => performs_items_round hends hfresh (hvalue.bind ?_)
    simp only [Option.isSome_some, if_true]
    exact heat.bind (ih _ (fresh_of_reads htext htaken hshorter))

/-- A list is read at any depth: where no level is left the depth exceeds the limit, and each list
within a list takes one level. -/
theorem performs_lists (levels : Nat) (depth : Int)
    (hlevels : c.limit.levelsWithin (depth - 1) = levels) (s : State) :
    Performs c s (Procedure.list depth) () [((lists c levels).run s).1]
      ((lists c levels).run s).2 := by
  induction levels generalizing depth s with
  | zero =>
    -- no level is left exactly if the depth of this list exceeds the limit
    have hdeep : depth > c.limit.depth := by
      unfold NestingLimit.levelsWithin at hlevels
      omega
    rw [Procedure.list]
    refine (performs_limit s).look ?_
    simp only [if_pos hdeep]
    refine (performs_report s _ _).look ?_
    have hskip := performs_skipBalancedBrackets (c := c) (reportTooDeep c s)
    rw [reportTooDeep, report_ahead] at hskip
    exact hskip
  | succ levels ih =>
    have hshallow : ¬ depth > c.limit.depth := by
      unfold NestingLimit.levelsWithin at hlevels
      omega
    -- the lists within this one are one deeper and have one level less
    have hinner : c.limit.levelsWithin (depth + 1 - 1) = levels := by
      unfold NestingLimit.levelsWithin at hlevels ⊢
      omega
    have helement := performs_valueOf (ih (depth + 1) hinner)
    have hitems := performs_items helement (reads_valueOf (reads_lists levels)) (s.skip 1) {} rfl
    rw [Procedure.list]
    refine (performs_limit s).look ?_
    simp only [if_neg hshallow, lists, listOf]
    rw [← List.append_assoc]
    exact Performs.startNode ((performs_bump s).closes (hitems.closes
      ((performs_expect _ .rbracket (by simp)).closes
        (closes_finishNode (.value .list) s.offset _ _))))

/-- The procedure for lists ends. Its depth counts the lists around it, and so many levels are
left. -/
theorem performs_list (s : State) (depth : Int) :
    Performs c s (Procedure.list depth) ()
      [(list c (c.limit.levelsWithin (depth - 1)) s).1]
      (list c (c.limit.levelsWithin (depth - 1)) s).2 :=
  performs_lists _ depth rfl s

/-- The procedure for values ends and reads what the routine does, with as many levels as are left
at its depth. -/
theorem performs_value (s : State) (depth : Int) :
    Performs c s (Procedure.value depth) (value c (c.limit.levelsWithin depth) s).1.isSome
      (value c (c.limit.levelsWithin depth) s).1.toList
      (value c (c.limit.levelsWithin depth) s).2 :=
  performs_valueOf (performs_lists _ (depth + 1) (by rw [Int.add_sub_cancel])) s

/-! ## Fields and declarations -/

/-- What is left of a field behind its colon. -/
theorem closes_content (found : Bool) (offset : Nat) (ts : List SyntaxTree) (s : State) :
    Closes c .field offset ts s (do
      if found then
        let _ ← Procedure.value 0
      Procedure.finishNode) ()
      [.branch c.source (.node .field) offset
        (ts ++ (if found then value c c.limit.depth s else (none, s)).1.toList)]
      (if found then value c c.limit.depth s else (none, s)).2 := by
  cases found with
  | false =>
    simp only [Bool.false_eq_true, if_false, Option.toList_none, List.append_nil]
    exact closes_finishNode .field offset ts s
  | true =>
    have hlevels : c.limit.levelsWithin 0 = c.limit.depth := by
      simp [NestingLimit.levelsWithin]
    have hvalue := performs_value (c := c) s 0
    rw [hlevels] at hvalue
    simp only [if_true]
    exact hvalue.closes (closes_finishNode .field offset _ _)

/-- The procedure for fields ends and reads what the routine does. -/
theorem performs_field (s : State) :
    Performs c s Procedure.field () [(field c s).1] (field c s).2 := by
  have hkey := performs_bumpAs (c := c) s .fieldKey
  have hcolon := performs_expect (c := c) (s.skip 1) .colon (by simp)
  exact Performs.startNode (hkey.closes (hcolon.closes (closes_content _ s.offset _ _)))

/-- A round of the loop over the fields of a body. -/
theorem performs_body_round {w : Watch} (hends : ¬ endsBody s.kind) (hfresh : Fresh c s w)
    (hround : Performs c s (do
      if isNameToken s.kind then
        Procedure.field
        let _ ← Procedure.eat .comma
      else
        Procedure.report .unexpectedToken
          s!"Unexpected {s.kind.display}; expected a field `key: value`"
        Procedure.bumpAs .error
      Procedure.body ⟨some (s.range c).start⟩) () ts s') :
    Performs c s (Procedure.body w) () ts s' := by
  rw [Procedure.body]
  refine (performs_kind s).look ?_
  simp only [if_neg hends]
  exact (performs_assertProgress hfresh).look hround

/-- The loop over the fields of a body ends: each round takes a token, so the watch stays fresh. -/
theorem performs_body (s : State) :
    ∀ w, Fresh c s w → Performs c s (Procedure.body w) () (body c s).1 (body c s).2 := by
  fun_induction body c s with
  | case1 s hends =>
    intro w hfresh
    rw [Procedure.body]
    refine (performs_kind s).look ?_
    simp only [if_pos hends]
    exact performs_pure s ()
  | case2 s hends hname comma later ih =>
    intro w hfresh
    -- a field takes its key at least
    have htaken := (reads_field s).append (Reads.accept (c := c) (field c s).2 .comma)
    have hshorter : comma.2.ahead.length < s.ahead.length := by
      have hpositive := length_ahead_pos (s := s) fun heof => hends (heof ▸ rfl)
      have hfield := field_ahead_length_le c s
      have haccept : comma.2.ahead.length ≤ (field c s).2.ahead.length :=
        accept_ahead_length_le (field c s).2 c .comma
      omega
    refine performs_of_suffix fun htext => performs_body_round hends hfresh ?_
    simp only [if_pos hname]
    have heat := performs_eat (c := c) (field c s).2 .comma (by simp)
    exact (performs_field s).bind (heat.bind (ih _ (fresh_of_reads htext htaken hshorter)))
  | case3 s hends hname reported later ih =>
    intro w hfresh
    have htaken : Reads c s _ (reported.skip 1) := Reads.of_report (Reads.wrap reported .error 1)
    have hshorter : (reported.skip 1).ahead.length < s.ahead.length := by
      have hpositive := length_ahead_pos (s := s) fun heof => hends (heof ▸ rfl)
      rw [skip_ahead, report_ahead, List.length_drop]
      omega
    refine performs_of_suffix fun htext => performs_body_round hends hfresh ?_
    simp only [if_neg hname]
    refine (performs_report s _ _).look ?_
    exact (performs_bumpAs reported .error).bind (ih _ (fresh_of_reads htext htaken hshorter))

/-- The procedure for the name of a declaration ends and reads what the routine does. -/
theorem performs_declarationName (s : State) :
    Performs c s Procedure.declarationName () (declarationName c s).1
      (declarationName c s).2 := by
  refine (performs_kind s).look ?_
  unfold declarationName
  by_cases hname : isNameToken s.kind
  · simp only [if_pos hname]
    exact performs_bumpAs s .name
  · simp only [if_neg hname]
    exact performs_report s _ _

/-- What is left of a declaration behind its name. -/
theorem closes_block (kind : CitizenKind) (offset : Nat) (ts : List SyntaxTree) (s : State) :
    Closes c (.declaration kind) offset ts s (do
      if ← Procedure.expect .lbrace then
        Procedure.body {}
        let _ ← Procedure.expect .rbrace
        Procedure.finishNode
      else
        Procedure.skipUntilDirective false
        Procedure.finishNode) ()
      [.branch c.source (.node (.declaration kind)) offset (ts ++ (block c s).1)]
      (block c s).2 := by
  have hopen := performs_expect (c := c) s .lbrace (by simp)
  unfold block
  split
  · rename_i next heq
    rw [heq] at hopen
    refine hopen.closes ?_
    rw [Option.toList_none, List.append_nil]
    exact (performs_skipUntilDirective next false).closes
      (closes_finishNode (.declaration kind) offset _ _)
  · rename_i brace next heq
    rw [heq] at hopen
    have hclose := performs_expect (c := c) (body c next).2 .rbrace (by simp)
    have helements : ts ++ brace :: ((body c next).1 ++
        ((body c next).2.expect c .rbrace).1.toList) =
          ts ++ [brace] ++ (body c next).1 ++ ((body c next).2.expect c .rbrace).1.toList := by
      simp
    refine hopen.closes ((performs_body next {} rfl).closes ?_)
    rw [helements]
    exact hclose.closes (closes_finishNode (.declaration kind) offset _ _)

/-- The procedure for declarations ends and reads what the routine does. -/
theorem performs_declaration (s : State) :
    Performs c s Procedure.declaration () [(declaration c s).1] (declaration c s).2 := by
  refine (performs_text s).look ?_
  rw [String.toList_ofList]
  unfold declaration
  cases CitizenKind.ofDirective? s.text with
  | none => exact (performs_report s _ _).look (performs_skipUntilDirective _ true)
  | some kind =>
    show Performs c s _ () [.branch c.source _ s.offset (s.leaves c 1 ++ (_ ++ _))] _
    rw [← List.append_assoc]
    exact Performs.startNode ((performs_bump s).closes
      ((performs_declarationName (s.skip 1)).closes (closes_block kind s.offset _ _)))

/-- A round of the loop over the declarations of a document. -/
theorem performs_declarations_round {w : Watch} (heof : s.kind ≠ .eof) (hfresh : Fresh c s w)
    (hround : Performs c s (do
      if s.kind = .directive then
        Procedure.declaration
      else
        Procedure.report .unexpectedToken
          s!"Unexpected {s.kind.display}; expected a declaration such as `@Origin`"
        Procedure.skipUntilDirective true
      Procedure.declarations ⟨some (s.range c).start⟩) () ts s') :
    Performs c s (Procedure.declarations w) () ts s' := by
  rw [Procedure.declarations]
  refine (performs_kind s).look ?_
  simp only [if_neg heof]
  exact (performs_assertProgress hfresh).look hround

/-- The loop over the declarations ends: each round takes a token, so the watch stays fresh. -/
theorem performs_declarations (s : State) :
    ∀ w, Fresh c s w →
      Performs c s (Procedure.declarations w) () (declarations c s).1 (declarations c s).2 := by
  fun_induction declarations c s with
  | case1 s heof =>
    intro w hfresh
    rw [Procedure.declarations]
    refine (performs_kind s).look ?_
    simp only [if_pos heof]
    exact performs_pure s ()
  | case2 s heof next later ih =>
    intro w hfresh
    -- a declaration takes its directive at least, and skipping takes the current token
    have hshorter : next.2.ahead.length < s.ahead.length := by
      have hpositive := length_ahead_pos heof
      have hdeclaration := declaration_ahead_length_le c s
      have hstray := strayTokens_ahead_length_le c s
      simp only [next]
      split <;> omega
    refine performs_of_suffix fun htext => performs_declarations_round heof hfresh ?_
    by_cases hdirective : s.kind = .directive
    · have hnext : next = declaration c s := if_pos hdirective
      have hrest := ih _ (fresh_of_reads htext (hnext ▸ reads_declaration s) hshorter)
      have hdeclaration : Performs c s Procedure.declaration () [next.1] next.2 :=
        hnext ▸ performs_declaration s
      simp only [if_pos hdirective]
      exact hdeclaration.bind hrest
    · have hnext : next = strayTokens c s := if_neg hdirective
      have hrest := ih _ (fresh_of_reads htext (hnext ▸ reads_strayTokens s) hshorter)
      have hskip := performs_skipUntilDirective (c := c) (s.report c .unexpectedToken
        s!"Unexpected {s.kind.display}; expected a declaration such as `@Origin`") true
      rw [← strayTokens, ← hnext] at hskip
      simp only [if_neg hdirective]
      exact (performs_report s _ _).look (hskip.bind hrest)

/-- The procedure for whole documents ends and reads what the routine does. -/
theorem performs_sourceFile (s : State) :
    Performs c s Procedure.sourceFile () [(sourceFile c s).1] (sourceFile c s).2 :=
  Performs.startNode ((performs_declarations s {} rfl).closes
    (closes_finishNode .sourceFile s.offset _ _))

/-! ## Whole texts -/

/-- A machine that has a document for its only root yields it under a root node. -/
theorem run_complete {m : Machine} {source : SourceText} {before offset : Nat}
    {ts : List SyntaxTree}
    (h : m.builder = {
      source := source
      roots := [.branch source (.node .sourceFile) before ts]
      offset := offset }) :
    ∃ builder, Procedure.complete.run m = some (.ok (.branch source (.node .root) offset
      [.branch source (.node .sourceFile) before ts], { m with builder := builder })) := by
  let root := SyntaxTree.branch source (.node .root) offset
    [.branch source (.node .sourceFile) before ts]
  refine ⟨{ m.builder with roots := [root] }, ?_⟩
  simp only [Procedure.complete, StateT.run_bind, StateT.run_get, pure_bind, h]
  rfl

/-- The leaves of a document are the significant tokens of its text. -/
theorem leaves_root (source : SourceText) (limit : NestingLimit) :
    (Document.parse source limit).root.leaves = (significantTokens source.toList).map fun t =>
      (.token t.kind, t.range, String.ofList t.text) := by
  let c : Context := ⟨source, limit⟩
  have hreads : Reads c (.initial source.toList) [(sourceFile c (.initial source.toList)).1]
      (sourceFile c (.initial source.toList)).2 := reads_sourceFile _
  have hnil : (sourceFile c (.initial source.toList)).2.ahead = [] := by
    cases hahead : (sourceFile c (.initial source.toList)).2.ahead with
    | nil => rfl
    | cons t later =>
      have hkind := sourceFile_kind (c := c) (.initial source.toList)
      rw [kind_of_ahead hahead] at hkind
      exact absurd hkind (kind_ne_eof_of_suffix (c := c) hahead hreads.ahead_suffix)
  obtain ⟨taken, htaken, hleaves⟩ := hreads.exists_taken
  rw [hnil, List.append_nil] at htaken
  show SyntaxTree.leavesOf [(sourceFile c (.initial source.toList)).1] = _
  rw [hleaves, ← htaken]
  refine List.map_congr_left fun t ht => ?_
  have hmem : t ∈ tokens source.toList := (List.mem_filter.mp ht).1
  rw [Reads.leafEntry, slice_range_of_mem_tokens hmem]

/-- What a text comes to: a root whose only child is the document, the significant tokens of the
text from left to right as its leaves, and all that the lexer has to report of the text among the
diagnostics. -/
structure Parsed.Covers (p : Parsed) (source : SourceText) : Prop where
  root : p.root.isNode ∧ p.root.kind = .node .root
  document : ∃ document, p.root.children = [document] ∧ document.isNode ∧
    document.kind = .node .sourceFile ∧ p.sourceFile = .ok document
  leaves : p.root.leaves = (significantTokens source.toList).map fun t =>
    (.token t.kind, t.range, String.ofList t.text)
  lexical : p.lexical = lexicalDiagnostics source.toList
  diagnostics : p.diagnostics.Perm (lexicalDiagnostics source.toList ++ p.reports)

/-- Every text is parsed to the end without a fault. The result covers the text, and it is the
document that the routines make of it. -/
theorem runText_total (source : SourceText) (limit : NestingLimit) :
    ∃ parsed : Parsed, runText source limit = some (.ok parsed) ∧ parsed.Covers source ∧
      parsed.root = (Document.parse source limit).root ∧
      parsed.diagnostics = (Document.parse source limit).diagnostics := by
  let read := sourceFile ⟨source, limit⟩ (.initial source.toList)
  let root := SyntaxTree.branch source (.node .root) read.2.offset [read.1]
  obtain ⟨m, hstart, hsound, hsession⟩ := Machine.exists_start source limit
  obtain ⟨m', hsound', hsession', hrun⟩ :=
    performs_sourceFile (c := ⟨source, limit⟩) (.initial source.toList) _ rfl rfl m hsound hsession
  have hbuilder : m'.builder = { source := source, roots := [read.1], offset := read.2.offset } :=
    congrArg Session.builder hsession'
  obtain ⟨builder, hcomplete⟩ := run_complete hbuilder
  have hall : (do Procedure.sourceFile; Procedure.complete : Procedure _).run m =
      some (.ok (root, { m' with builder := builder })) := by
    rw [StateT.run_bind, hrun]
    exact hcomplete
  have hreports : m'.reports = read.2.reports := congrArg Session.reports hsession'
  -- the reader was asked for tokens until it had none, so it has seen all that is wrong with them
  have hlexical : m'.reader.diagnostics = lexicalDiagnostics source.toList := by
    have hkind : m'.current.kind = .eof := by
      rw [← Machine.kind_session, congrArg Session.state hsession']
      exact sourceFile_kind _
    rw [hsound'.diagnostics_eq hkind, hbuilder]
  refine ⟨⟨root, m'.reader.diagnostics, m'.reports.reverse⟩, ?_, ?_, rfl, ?_⟩
  · have hdrawn : (liftM (some m) : ExceptT Fault Option Machine) = pure m := rfl
    rw [runText, hstart, hdrawn, pure_bind, hall]
    rfl
  · refine ⟨⟨rfl, rfl⟩, ⟨read.1, rfl, rfl, rfl, rfl⟩, leaves_root source limit, hlexical, ?_⟩
    rw [Parsed.diagnostics, hlexical, Diagnostic.collect, List.flatten_cons, List.flatten_cons,
      List.flatten_nil, List.append_nil]
    exact List.mergeSort_perm _ _
  · rw [Parsed.diagnostics, hlexical, hreports]
    rfl

end WorldDoc.Parse
