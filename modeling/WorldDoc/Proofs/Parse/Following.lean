import WorldDoc.Proofs.Parse.Place

/-!
# Reading along the places

As long as nothing is reported a routine walks from place to place, and at the first report it
stands at a place that refuses the current token. `Follows` says so of one routine: it comes to a
certain place without a report (`Clean`), or its first report stands where the walk is refused
(`Stuck`). Each routine has its `follows_…` lemma, up to `follows_declarations` for a whole
document.

In loops the place is not the same at the end of every round, as a comma may be there or not. Where
the items of a list end (`AtListEnd`) and where a field may begin (`AtField`) there are two places
each, and the lemmas about loops say that one of them is reached.
-/

namespace WorldDoc.Parse

open State

variable {c : Context} {s s' s'' : State} {ts : List SyntaxTree} {p q r : Place} {t : Token}
  {ahead later : List Token} {reports reports' : List Diagnostic}

/-! ## Walking along -/

/-- The place refuses the current token. Only the place between declarations takes the end of the
file. -/
def Refuses (limit : Nat) (p : Place) : List Token → Prop
  | [] => p ≠ .top
  | t :: _ => p.next limit t = none

/-- From the place `p` the tokens taken lead to the place `q`, and nothing has been reported. -/
structure Clean (c : Context) (p : Place) (s : State) (q : Place) (s' : State) : Prop where
  reports : s'.reports = []
  walk : ∃ taken, s.ahead = taken ++ s'.ahead ∧ p.walk c.limit.depth taken = some q

/-- From the place `p` the tokens ahead lead to a place that refuses the next one, and the first
report stands there. -/
def Stuck (c : Context) (p : Place) (ahead : List Token) (reports : List Diagnostic) : Prop :=
  ∃ taken rest q d, ahead = taken ++ rest ∧ p.walk c.limit.depth taken = some q ∧
    Refuses c.limit.depth q rest ∧ reports.getLast? = some d ∧ d.range = rangeAt c rest

/-- A routine leads from the place `p` to the place `q`, or it gets stuck between them. -/
def Follows (c : Context) (p : Place) (s : State) (q : Place) (s' : State) : Prop :=
  Clean c p s q s' ∨ Stuck c p s.ahead s'.reports

/-- Where nothing is taken the place stays the same. -/
theorem Clean.nothing (hclean : s.reports = []) : Clean c p s p s := ⟨hclean, [], rfl, rfl⟩

/-- A token that may stand at a place leads to the next one. -/
theorem Clean.token (hclean : s.reports = []) (hahead : s.ahead = t :: later)
    (hnext : p.next c.limit.depth t = some q) : Clean c p s q (s.skip 1) := by
  refine ⟨hclean, [t], ?_, ?_⟩
  · rw [skip_one_ahead hahead, hahead]
    rfl
  · rw [Place.walk_cons, hnext]
    rfl

/-- Ways without reports are put together. -/
theorem Clean.trans (h : Clean c p s q s') (h' : Clean c q s' r s'') : Clean c p s r s'' := by
  obtain ⟨taken, hahead, hwalk⟩ := h.walk
  obtain ⟨taken', hahead', hwalk'⟩ := h'.walk
  refine ⟨h'.reports, taken ++ taken', by rw [hahead, hahead', List.append_assoc], ?_⟩
  rw [Place.walk_append, hwalk]
  exact hwalk'

/-- Behind a way without reports, to be stuck is to be stuck on the whole way. -/
theorem Clean.stuck (h : Clean c p s q s') (h' : Stuck c q s'.ahead reports) :
    Stuck c p s.ahead reports := by
  obtain ⟨taken, hahead, hwalk⟩ := h.walk
  obtain ⟨taken', rest, r, d, hahead', hwalk', hrefuses⟩ := h'
  refine ⟨taken ++ taken', rest, r, d, ?_, ?_, hrefuses⟩
  · rw [hahead, hahead', List.append_assoc]
  · rw [Place.walk_append, hwalk]
    exact hwalk'

/-- The first report stays the first one. -/
theorem Stuck.mono (h : Stuck c p ahead reports) (hsuffix : reports <:+ reports') :
    Stuck c p ahead reports' := by
  obtain ⟨taken, rest, q, d, hahead, hwalk, hrefuses, hfirst, hrange⟩ := h
  obtain ⟨added, rfl⟩ := hsuffix
  refine ⟨taken, rest, q, d, hahead, hwalk, hrefuses, ?_, hrange⟩
  rw [List.getLast?_append, hfirst]
  rfl

/-- Who is stuck stays so, whatever is read. -/
theorem Stuck.reads (h : Stuck c p ahead s'.reports) (hreads : Reads c s' ts s'') :
    Stuck c p ahead s''.reports :=
  h.mono hreads.reports_suffix

/-- Without a report nothing is stuck. -/
theorem not_stuck_nil : ¬ Stuck c p ahead [] := by
  rintro ⟨taken, rest, q, d, -, -, -, hfirst, -⟩
  cases hfirst

/-- A report at a place that refuses the current token is the first one. -/
theorem stuck_report (hclean : s.reports = []) (hrefuses : Refuses c.limit.depth p s.ahead)
    (finding : Finding) (message : Option String) :
    Stuck c p s.ahead (s.report c finding message).reports := by
  refine ⟨[], s.ahead, p, finding.at (s.range c) message, rfl, rfl, hrefuses, ?_, rfl⟩
  rw [State.report, record, hclean]
  rfl

/-- Routines that come one after the other. -/
theorem Follows.trans (h : Follows c p s q s')
    (h' : s'.reports = [] → Follows c q s' r s'') (hreads : Reads c s' ts s'') :
    Follows c p s r s'' := by
  rcases h with h | h
  · exact (h' h.reports).imp h.trans h.stuck
  · exact Or.inr (h.reads hreads)

/-- A token that is expected. The place has to lead on with it and to refuse all others. -/
theorem follows_expect {kind : TokenKind} (hclean : s.reports = []) (heof : kind ≠ .eof)
    (hnext : ∀ t later, s.ahead = t :: later → t.kind = kind →
      p.next c.limit.depth t = some q)
    (hrefuses : s.kind ≠ kind → Refuses c.limit.depth p s.ahead) :
    Follows c p s q (s.expect c kind).2 := by
  by_cases hkind : s.kind = kind
  · obtain ⟨t, later, hahead⟩ := exists_ahead_of_kind hkind heof
    rw [expect_of_ahead hahead t.2]
    exact Or.inl (Clean.token hclean hahead (hnext t.1 later hahead t.2))
  · rw [expect_of_kind_ne hkind]
    exact Or.inr (stuck_report hclean (hrefuses hkind) _ _)

/-! ## Values and lists -/

/-- At the place `p` a value within so many lists has to begin. -/
def AwaitsValue (c : Context) (outer : Nat) (p : Place) (s : State) : Prop :=
  p ≠ .top ∧ ∀ t later, s.ahead = t :: later →
    p.next c.limit.depth t = Place.startValue c.limit.depth outer t

/-- The routine reads a list that lies within so many others. -/
def FollowsList (c : Context) (outer : Nat) (list : ListRoutine) : Prop :=
  ∀ p s, s.reports = [] → s.kind = .lbracket → AwaitsValue c outer p s →
    Follows c p s (.behind outer) (list.run s).2

/-- The routine reads a value that lies within so many lists, and where it finds none it is
stuck. -/
def FollowsValue (c : Context) (outer : Nat) (element : ValueRoutine) : Prop :=
  ∀ p s, s.reports = [] → AwaitsValue c outer p s →
    Follows c p s (.behind outer) (element.run s).2 ∧
      ((element.run s).1 = none → Stuck c p s.ahead (element.run s).2.reports)

/-- A place that awaits a value refuses a token that begins none. -/
theorem AwaitsValue.refuses {outer : Nat} (h : AwaitsValue c outer p s)
    (hstart : ∀ t later, s.ahead = t :: later →
      Place.startValue c.limit.depth outer t = none) : Refuses c.limit.depth p s.ahead := by
  cases hahead : s.ahead with
  | nil => exact h.1
  | cons t later =>
    show p.next c.limit.depth t = none
    rw [h.2 t later hahead, hstart t later hahead]

/-- At a list nested too deep the parser is stuck, as no list may stand there. -/
theorem followsList_tooDeep : FollowsList c c.limit.depth (tooDeep c) := by
  intro p s hclean hbracket hawaits
  refine Or.inr ((stuck_report hclean (hawaits.refuses ?_) _ _).reads
    (Reads.wrap (reportTooDeep c s) .error _))
  intro t later hahead
  rw [kind_of_ahead hahead] at hbracket
  rw [Place.startValue, if_pos hbracket, if_neg (Nat.lt_irrefl _)]

/-- A routine that reads lists within others makes one that reads values there. -/
theorem followsValue_valueOf {outer : Nat} {list : ListRoutine} (hlist : FollowsList c outer list) :
    FollowsValue c outer (valueOf c list) := by
  intro p s hclean hawaits
  simp only [valueOf]
  split
  · rename_i hbracket
    exact ⟨hlist p s hclean hbracket hawaits, fun hnone => absurd hnone (Option.some_ne_none _)⟩
  · rename_i hbracket
    split
    · rename_i kind writes
      obtain ⟨t, later, hahead⟩ := exists_ahead_of_kind (s := s) rfl (by
        intro heof
        rw [heof] at writes
        cases writes)
      refine ⟨Or.inl (Clean.token hclean hahead ?_), fun hnone => absurd hnone (Option.some_ne_none _)⟩
      rw [hawaits.2 t.1 later hahead, Place.startValue, t.2, if_neg hbracket, writes]
      rfl
    · rename_i writes
      have hrefuses : Refuses c.limit.depth p s.ahead := hawaits.refuses fun t later hahead => by
        rw [kind_of_ahead hahead] at hbracket writes
        rw [Place.startValue, if_neg hbracket, writes]
        rfl
      have hstuck := stuck_report hclean hrefuses .expectedValue
        s!"{Finding.expectedValue.message}, found {s.kind.display}"
      exact ⟨Or.inr hstuck, fun _ => hstuck⟩

/-- Where the items of a list end, the list has to be closed: no value has begun, or the last one
has no comma behind it. -/
def AtListEnd (outer : Nat) (q : Place) (s : State) : Prop :=
  q = .item outer ∧ endsList s.kind = true ∨ q = .behindItem outer ∧ s.kind ≠ .comma

/-- Items lead to where the list has to be closed, or get stuck. -/
theorem follows_items {outer : Nat} {element : ValueRoutine}
    (helement : FollowsValue c (outer + 1) element)
    (hreads : ∀ s, Reads c s (element.run s).1.toList (element.run s).2) (s : State)
    (hclean : s.reports = []) :
    (∃ q, AtListEnd outer q (items c element s).2 ∧
        Clean c (.item outer) s q (items c element s).2) ∨
      Stuck c (.item outer) s.ahead (items c element s).2.reports := by
  have hawaits {s : State} (hends : ¬ endsList s.kind = true) :
      AwaitsValue c (outer + 1) (.item outer) s := by
    refine ⟨by simp, fun t later hahead => ?_⟩
    refine if_neg fun hclose => hends ?_
    rw [kind_of_ahead hahead, hclose]
    rfl
  -- a round that goes on is a value and a comma, and the next one starts at the same place
  fun_induction items c element s with
  | case1 s hends => exact Or.inl ⟨.item outer, Or.inl ⟨rfl, hends⟩, Clean.nothing hclean⟩
  | case2 s hends next heq later ih =>
    have hstuck := (helement _ s hclean (hawaits hends)).2 (by rw [heq])
    rw [heq] at hstuck
    -- the loop goes on, but its first report has been made
    exact Or.inr ((hstuck.reads (Reads.wrap next .error 1)).reads (reads_items hreads _))
  | case3 s hends value next heq same hcomma =>
    have hvalue := (helement _ s hclean (hawaits hends)).1
    rw [heq] at hvalue
    refine hvalue.imp_left fun hvalue => ⟨.behindItem outer, Or.inr ⟨rfl, fun hkind => ?_⟩, hvalue⟩
    obtain ⟨t, later, hahead⟩ := exists_ahead_of_kind hkind (by decide)
    rw [accept_of_ahead hahead t.2] at hcomma
    cases (Prod.mk.inj hcomma).1
  | case4 s hends value next heq comma after hcomma later ih =>
    have hvalue := (helement _ s hclean (hawaits hends)).1
    rw [heq] at hvalue
    obtain ⟨t, hahead⟩ := exists_of_accept hcomma
    rw [accept_of_ahead hahead t.2] at hcomma
    obtain ⟨-, rfl⟩ := Prod.mk.inj hcomma
    rcases hvalue with hvalue | hstuck
    · have htoken : Clean c (.behindItem outer) next (.item outer) (next.skip 1) :=
        Clean.token hvalue.reports hahead (if_pos t.2)
      have hthrough := hvalue.trans htoken
      rcases ih htoken.reports with ⟨q, hend, hlater⟩ | hstuck
      · exact Or.inl ⟨q, hend, hthrough.trans hlater⟩
      · exact Or.inr (hthrough.stuck hstuck)
    · exact Or.inr ((hstuck.reads (Reads.leaves next 1)).reads (reads_items hreads _))

/-- At the end of its items a list is closed by a bracket and by nothing else. -/
theorem AtListEnd.follows_expect {outer : Nat} (h : AtListEnd outer q s) (hclean : s.reports = []) :
    Follows c q s (.behind outer) (s.expect c .rbracket).2 := by
  refine Parse.follows_expect hclean (by decide) ?_ ?_
  · intro t later hahead hkind
    rcases h with ⟨rfl, -⟩ | ⟨rfl, -⟩
    · exact if_pos hkind
    · exact (if_neg (by rw [hkind]; decide)).trans (if_pos hkind)
  · intro hkind
    cases hahead : s.ahead with
    | nil => rcases h with ⟨rfl, -⟩ | ⟨rfl, -⟩ <;> simp [Refuses]
    | cons t later =>
      rw [kind_of_ahead hahead] at hkind
      rcases h with ⟨rfl, hends⟩ | ⟨rfl, hcomma⟩
      · rw [kind_of_ahead hahead] at hends
        refine (if_neg hkind).trans ?_
        cases htoken : t.kind <;>
          simp [htoken, endsList, Place.startValue, ValueKind.ofToken?] at hends ⊢
      · rw [kind_of_ahead hahead] at hcomma
        exact (if_neg hcomma).trans (if_neg hkind)

/-- A routine that reads values within a list makes one that reads the list around them. -/
theorem followsList_listOf {outer : Nat} (houter : outer < c.limit.depth) {element : ValueRoutine}
    (helement : FollowsValue c (outer + 1) element)
    (hreads : ∀ s, Reads c s (element.run s).1.toList (element.run s).2) :
    FollowsList c outer (listOf c element) := by
  intro p s hclean hbracket hawaits
  obtain ⟨t, later, hahead⟩ := exists_ahead_of_kind hbracket (by decide)
  have hopen : Clean c p s (.item outer) (s.skip 1) := by
    refine Clean.token hclean hahead ?_
    rw [hawaits.2 t.1 later hahead, Place.startValue, if_pos t.2, if_pos houter]
  have hclose := Reads.expect (c := c) (items c element (s.skip 1)).2 .rbracket
  rcases follows_items helement hreads (s.skip 1) hopen.reports with ⟨q, hend, hitems⟩ | hstuck
  · have hthrough := hopen.trans hitems
    exact (hend.follows_expect hitems.reports).imp hthrough.trans hthrough.stuck
  · exact Or.inr (hopen.stuck (hstuck.reads hclose))

/-- The levels left and the lists around make up the limit. -/
theorem followsList_lists {levels outer : Nat} (h : levels + outer = c.limit.depth) :
    FollowsList c outer (lists c levels) := by
  induction levels generalizing outer with
  | zero =>
    rw [Nat.zero_add] at h
    exact h ▸ followsList_tooDeep
  | succ levels ih =>
    exact followsList_listOf (by omega) (followsValue_valueOf (ih (by omega)))
      (reads_valueOf (reads_lists levels))

/-! ## Fields and declarations -/

/-- The value of a field leads to the place behind it. -/
theorem follows_value (hclean : s.reports = []) :
    Follows c .value s .behindField (value c c.limit.depth s).2 :=
  (followsValue_valueOf (followsList_lists (Nat.add_zero _)) .value s hclean
    ⟨by simp, fun _ _ _ => rfl⟩).1

/-- A field leads from where it may begin to the place behind it. -/
theorem follows_field (hclean : s.reports = []) (hname : isNameToken s.kind = true)
    (hnext : ∀ t later, s.ahead = t :: later →
      p.next c.limit.depth t = Place.startField t) :
    Follows c p s .behindField (field c s).2 := by
  obtain ⟨key, later, hahead⟩ := exists_name hname
  have hkey : Clean c p s .colon (s.skip 1) := by
    refine Clean.token hclean hahead ?_
    rw [hnext _ _ hahead, Place.startField, if_pos (isNameToken_name key)]
  by_cases hkind : (s.skip 1).kind = .colon
  · obtain ⟨colon, later, hcolon⟩ := exists_ahead_of_kind hkind (by decide)
    have hfield : (field c s).2 = (value c c.limit.depth ((s.skip 1).skip 1)).2 := by
      simp only [field, wrap, expect_of_ahead hcolon colon.2]
      rfl
    have hbehind := hkey.trans (Clean.token hkey.reports hcolon (if_pos colon.2))
    rw [hfield]
    exact (follows_value hbehind.reports).imp hbehind.trans hbehind.stuck
  · have hfield : (field c s).2 = ((s.skip 1).expect c .colon).2 := by
      simp only [field, wrap, expect_of_kind_ne hkind]
      rfl
    have hrefuses : Refuses c.limit.depth .colon (s.skip 1).ahead := by
      cases hrest : (s.skip 1).ahead with
      | nil => simp [Refuses]
      | cons t later => exact if_neg (kind_of_ahead hrest ▸ hkind)
    rw [hfield, expect_of_kind_ne hkind]
    exact Or.inr (hkey.stuck (stuck_report hkey.reports hrefuses _ _))

/-- Where a field may begin or the declaration end: a comma can no longer be taken. -/
def AtField (p : Place) (s : State) : Prop :=
  p = .body ∨ p = .behindField ∧ s.kind ≠ .comma

/-- Where a field may begin, a token leads on as the beginning of one. -/
theorem AtField.next_eq (h : AtField p s) (hahead : s.ahead = t :: later) :
    p.next c.limit.depth t = Place.startField t := by
  rcases h with rfl | ⟨rfl, hcomma⟩
  · rfl
  · exact if_neg (kind_of_ahead hahead ▸ hcomma)

/-- Where a field may begin, what is no name and does not end the declaration is refused. -/
theorem AtField.refuses (h : AtField p s) (hname : isNameToken s.kind = false)
    (hbrace : s.kind ≠ .rbrace) : Refuses c.limit.depth p s.ahead := by
  cases hahead : s.ahead with
  | nil => rcases h with rfl | ⟨rfl, -⟩ <;> simp [Refuses]
  | cons t later =>
    rw [kind_of_ahead hahead] at hname hbrace
    show p.next c.limit.depth t = none
    rw [h.next_eq hahead, Place.startField, hname, if_neg Bool.false_ne_true, if_neg hbrace]

/-- The comma behind a field is taken if it is there, and then a field may begin. -/
theorem clean_accept_comma (hclean : s.reports = []) :
    ∃ p, AtField p (s.accept c .comma).2 ∧ Clean c .behindField s p (s.accept c .comma).2 := by
  by_cases hcomma : s.kind = .comma
  · obtain ⟨t, later, hahead⟩ := exists_ahead_of_kind hcomma (by decide)
    rw [accept_of_ahead hahead t.2]
    exact ⟨.body, Or.inl rfl, Clean.token hclean hahead (if_pos t.2)⟩
  · rw [accept_of_kind_ne hcomma]
    exact ⟨.behindField, Or.inr ⟨rfl, hcomma⟩, Clean.nothing hclean⟩

/-- A body leads to where the declaration has to end, or gets stuck. -/
theorem follows_body (s : State) (hclean : s.reports = []) : ∀ p, AtField p s →
    (∃ q, AtField q (body c s).2 ∧ isNameToken (body c s).2.kind = false ∧
        Clean c p s q (body c s).2) ∨ Stuck c p s.ahead (body c s).2.reports := by
  -- the place is general, as the next round starts at either of two places
  fun_induction body c s with
  | case1 s hends =>
    intro p hp
    refine Or.inl ⟨p, hp, ?_, Clean.nothing hclean⟩
    cases hkind : s.kind <;> rw [hkind] at hends <;> first | rfl | exact absurd hends (by decide)
  | case2 s hends hname comma later ih =>
    intro p hp
    rcases follows_field (c := c) hclean hname fun _ _ hahead => hp.next_eq hahead with
      hfield | hstuck
    · obtain ⟨q, hq, hcomma⟩ := clean_accept_comma (c := c) hfield.reports
      have hthrough := hfield.trans hcomma
      rcases ih hcomma.reports q hq with ⟨r, hr, hkind, hlater⟩ | hstuck
      · exact Or.inl ⟨r, hr, hkind, hthrough.trans hlater⟩
      · exact Or.inr (hthrough.stuck hstuck)
    · exact Or.inr (hstuck.reads ((Reads.accept _ .comma).append (reads_body _)))
  | case3 s hends hname reported later ih =>
    intro p hp
    have hrefuses : Refuses c.limit.depth p s.ahead :=
      hp.refuses (Bool.eq_false_iff.mpr hname) fun hkind => hends (by rw [hkind]; rfl)
    exact Or.inr ((stuck_report hclean hrefuses _ _).reads
      ((Reads.wrap reported .error 1).append (reads_body _)))

/-- A block leads from its brace to the place between declarations. -/
theorem follows_block (hclean : s.reports = []) : Follows c .brace s .top (block c s).2 := by
  by_cases hkind : s.kind = .lbrace
  · obtain ⟨t, later, hahead⟩ := exists_ahead_of_kind hkind (by decide)
    have hopen : Clean c .brace s .body (s.skip 1) := Clean.token hclean hahead (if_pos t.2)
    simp only [block, expect_of_ahead hahead t.2]
    rcases follows_body (c := c) (s.skip 1) hopen.reports .body (Or.inl rfl) with
      ⟨q, hq, hname, hfields⟩ | hstuck
    · have hclose : Follows c q (body c (s.skip 1)).2 .top
          ((body c (s.skip 1)).2.expect c .rbrace).2 := by
        refine follows_expect hfields.reports (by decide) ?_ (hq.refuses hname)
        intro t later hrest hbrace
        rw [hq.next_eq hrest, Place.startField, if_neg (by rw [hbrace]; decide), if_pos hbrace]
      have hthrough := hopen.trans hfields
      exact hclose.imp hthrough.trans hthrough.stuck
    · exact Or.inr (hopen.stuck (hstuck.reads (Reads.expect _ .rbrace)))
  · have hrefuses : Refuses c.limit.depth .brace s.ahead := by
      cases hahead : s.ahead with
      | nil => simp [Refuses]
      | cons t later => exact if_neg (kind_of_ahead hahead ▸ hkind)
    simp only [block, expect_of_kind_ne hkind]
    exact Or.inr ((stuck_report hclean hrefuses _ _).reads (reads_skipToDirective false _))

/-- The name of a declaration leads to the brace. -/
theorem follows_declarationName (hclean : s.reports = []) :
    Follows c .name s .brace (declarationName c s).2 := by
  unfold declarationName
  split
  · rename_i hname
    obtain ⟨name, later, hahead⟩ := exists_name hname
    exact Or.inl (Clean.token hclean hahead (if_pos (isNameToken_name name)))
  · rename_i hname
    refine Or.inr (stuck_report hclean ?_ _ _)
    cases hahead : s.ahead with
    | nil => simp [Refuses]
    | cons t later => exact if_neg (kind_of_ahead hahead ▸ hname)

/-- A declaration leads from its directive to the place behind it. -/
theorem follows_declaration (hclean : s.reports = []) (hdirective : s.kind = .directive) :
    Follows c .top s .top (declaration c s).2 := by
  obtain ⟨t, later, hahead⟩ := exists_ahead_of_kind hdirective (by decide)
  cases hkind : CitizenKind.ofDirective? s.text with
  | none =>
    have hrefuses : Refuses c.limit.depth .top s.ahead := by
      rw [text_of_ahead hahead] at hkind
      rw [hahead]
      exact if_neg (by rw [Token.isKnownDirective, hkind]; simp)
    simp only [declaration, hkind]
    exact Or.inr ((stuck_report hclean hrefuses _ _).reads (reads_skipToDirective true _))
  | some kind =>
    have hopen : Clean c .top s .name (s.skip 1) := by
      refine Clean.token hclean hahead (if_pos ?_)
      rw [text_of_ahead hahead] at hkind
      rw [Token.isKnownDirective, hkind, t.2]
      rfl
    simp only [declaration, hkind]
    exact Follows.trans (Or.inl hopen)
      (fun hopened => (follows_declarationName hopened).trans follows_block (reads_block _))
      ((reads_declarationName _).append (reads_block _))

/-! ## Documents -/

/-- Declarations lead to the end of the document. -/
theorem follows_declarations (s : State) (hclean : s.reports = []) :
    Follows c .top s .top (declarations c s).2 := by
  fun_induction declarations c s with
  | case1 s h => exact Or.inl (Clean.nothing hclean)
  | case2 s h next later ih =>
    have hlater := reads_declarations (c := c) next.2
    by_cases hdirective : s.kind = .directive
    · have hdeclaration : Follows c .top s .top next.2 := by
        rw [show next = declaration c s from dif_pos hdirective]
        exact follows_declaration hclean hdirective
      exact hdeclaration.trans ih hlater
    · have hrefuses : Refuses c.limit.depth .top s.ahead := by
        obtain ⟨t, later, hahead⟩ := exists_ahead_of_kind (s := s) rfl h
        rw [kind_of_ahead hahead] at hdirective
        rw [hahead]
        exact if_neg (by simp [Token.isKnownDirective, hdirective])
      have hstray : Stuck c .top s.ahead next.2.reports := by
        rw [show next = strayTokens c s from dif_neg hdirective]
        exact (stuck_report hclean hrefuses _ _).reads (reads_skipToDirective true _)
      exact Or.inr (hstray.reads hlater)

/-- Where reading a document ends without a report the walk has gone through all its tokens. -/
theorem Clean.walk_eq {ts : List Token} (h : Clean c p ⟨ts, 0, []⟩ q s') (hend : s'.ahead = []) :
    p.walk c.limit.depth ts = some q := by
  obtain ⟨taken, hahead, hwalk⟩ := h.walk
  rw [hend, List.append_nil] at hahead
  rwa [show ts = taken from hahead]

/-- Reading a document goes through to its end, or its first report stands where the walk over its
tokens is refused. -/
theorem follows_sourceFile {ts : List Token} (heof : ∀ t ∈ ts, t.kind ≠ .eof) :
    ((sourceFile c ⟨ts, 0, []⟩).2.reports = [] ∧
        Place.walk c.limit.depth .top ts = some .top) ∨
      Stuck c .top ts (sourceFile c ⟨ts, 0, []⟩).2.reports := by
  refine (follows_declarations (c := c) ⟨ts, 0, []⟩ rfl).imp_left fun h => ⟨h.reports, ?_⟩
  refine h.walk_eq ?_
  cases hrest : (declarations c ⟨ts, 0, []⟩).2.ahead with
  | nil => rfl
  | cons t later =>
    have hkind : t.kind = .eof := by
      rw [← kind_of_ahead hrest]
      exact sourceFile_kind (c := c) ⟨ts, 0, []⟩
    have hmem : t ∈ ts := (reads_declarations (c := c) ⟨ts, 0, []⟩).ahead_suffix.subset
      (hrest ▸ List.mem_cons_self)
    exact absurd hkind (heof t hmem)

end WorldDoc.Parse
