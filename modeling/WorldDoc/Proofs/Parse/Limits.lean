import WorldDoc.Proofs.Parse.Diagnostics
import WorldDoc.Proofs.Parse.Nesting
import WorldDoc.Proofs.Parse.Recovery

/-!
# The nesting limit

The limit on the nesting of lists bounds the lists of a tree, and a text that keeps to it is parsed
as with any larger limit. If a text does not, the first list that is reported as nested too deep is
the first one, in the order of the text, that a larger limit shows to lie too deep
(`Document.nesting_limit_bounds`). Nothing is assumed of the text.

## Shape of the proof

Two runs with different limits are followed from the same state on. They are abreast (`Abreast`) as
long as they read the same elements and no list lies too deep; at the first one that does, one run
reports it and the other one reads it, and whatever comes behind that is of no account
(`Abreast.append`). Most steps do not depend on the limit at all (`Plain`). The routines for lists
are compared by induction on the levels that are left, with as many more for the other run
throughout (`abreast_lists`).

The report at which the runs part must not be lost as a second one at the same place. So reading a
value within a list has to start beyond all earlier reports, which each round of the loop over the
items restores by taking a token, as it does for `keeps_items`. That no list is nested too deep if
the limit is the number of tokens comes from counting the brackets around the place where runs part.
-/

namespace WorldDoc

/-- Whether a list is reported as nested too deep. -/
def Diagnostic.isTooDeep (d : Diagnostic) : Bool := d.code = Finding.nestingTooDeep.code

namespace Parse

open State
open SyntaxTree (ListFree Shallow firstBeyond? firstBeyond?_append)

/-- The same text with another limit. -/
def Context.within (c : Context) (limit : NestingLimit) : Context := { c with limit := limit }

/-- No list has been reported as nested too deep. -/
def Quiet (s : State) : Prop := ∀ d ∈ s.reports, d.isTooDeep = false

/-- Where the first list stands that has been reported as nested too deep. -/
def firstTooDeep? (s : State) : Option TextRange :=
  (s.reports.reverse.find? Diagnostic.isTooDeep).map Diagnostic.range

variable {c : Context} {m : NestingLimit} {outer : Nat} {s s' : State}
  {p q r : List SyntaxTree × State}

/-- Where no list was reported there is no first one. -/
theorem Quiet.firstTooDeep?_eq_none (h : Quiet s) : firstTooDeep? s = none := by
  rw [firstTooDeep?, Option.map_eq_none_iff, List.find?_eq_none]
  intro d hd htooDeep
  exact Bool.false_ne_true ((h d (List.mem_reverse.mp hd)).symm.trans htooDeep)

/-- What has been reported first stays the first. -/
theorem Reads.firstTooDeep?_eq {ts : List SyntaxTree} {range : TextRange} (h : Reads c s ts s')
    (hs : firstTooDeep? s = some range) : firstTooDeep? s' = some range := by
  obtain ⟨later, hreports⟩ := h.reports_suffix
  rw [firstTooDeep?, Option.map_eq_some_iff] at hs ⊢
  obtain ⟨d, hd, hrange⟩ := hs
  refine ⟨d, ?_, hrange⟩
  rw [← hreports, List.reverse_append, List.find?_append, hd]
  rfl

/-! ## Steps in which the limit plays no part -/

/-- From `s` on elements without lists are read and no list is reported. -/
structure Plain (c : Context) (s : State) (p : List SyntaxTree × State) : Prop where
  reads : Reads c s p.1 p.2
  listFree : ListFree p.1
  quiet : Quiet s → Quiet p.2

/-- A report of anything else does not report a list. -/
theorem quiet_report {finding : Finding} {message : Option String}
    (hcode : finding.code ≠ Finding.nestingTooDeep.code) (hs : Quiet s) :
    Quiet (s.report c finding message) := by
  intro d hd
  rcases record_reports s (finding.at (s.range c) message) with hsame | hnew
  · exact hs d (hsame ▸ hd)
  · rcases List.mem_cons.mp (hnew ▸ hd : d ∈ _ :: s.reports) with rfl | hd
    · exact decide_eq_false hcode
    · exact hs d hd

/-- Leaves have no lists, and taking them reports none. -/
theorem plain_leaves (s : State) (n : Nat) : Plain c s (s.leaves c n, s.skip n) :=
  ⟨Reads.leaves s n, listFree_leaves s n, id⟩

/-- A node around leaves that is no list has none, and making it reports none. -/
theorem plain_wrap (s : State) (kind : NodeKind) (n : Nat)
    (hkind : kind ≠ .value .list := by decide) :
    Plain c s ([(s.wrap c kind n).1], (s.wrap c kind n).2) :=
  ⟨Reads.wrap s kind n, listFree_wrap s kind n hkind, id⟩

/-- A report of anything else reads nothing and reports no list. -/
theorem plain_report (s : State) (finding : Finding) (message : Option String)
    (hcode : finding.code ≠ Finding.nestingTooDeep.code := by decide)
    (herror : finding.severity = .error := by rfl) :
    Plain c s ([], s.report c finding message) :=
  ⟨Reads.report s finding message herror, .nil, quiet_report hcode⟩

/-- A token that is taken if it is there has no lists, nor is one reported. -/
theorem plain_accept (s : State) (kind : TokenKind) :
    Plain c s ((s.accept c kind).1.toList, (s.accept c kind).2) := by
  refine ⟨Reads.accept s kind, listFree_accept s kind, fun hs => ?_⟩
  unfold State.accept
  split
  · exact hs
  · split
    · exact hs
    · exact hs

/-- A token that is expected has no lists, nor is one reported. -/
theorem plain_expect (s : State) (kind : TokenKind) :
    Plain c s ((s.expect c kind).1.toList, (s.expect c kind).2) := by
  refine ⟨Reads.expect s kind, listFree_expect s kind, fun hs => ?_⟩
  have haccept := (plain_accept (c := c) s kind).quiet hs
  unfold State.expect
  split
  · rename_i leaf next heq
    rwa [heq] at haccept
  · rename_i same heq
    rw [heq] at haccept
    exact quiet_report (by decide) haccept

/-- The name of a declaration has no lists, nor is one reported. -/
theorem plain_declarationName (s : State) : Plain c s (declarationName c s) := by
  refine ⟨reads_declarationName s, listFree_declarationName s, fun hs => ?_⟩
  unfold declarationName
  split
  · exact hs
  · exact quiet_report (by decide) hs

/-- Stray tokens have no lists, nor is one reported. -/
theorem plain_strayTokens (s : State) :
    Plain c s ([(strayTokens c s).1], (strayTokens c s).2) :=
  ⟨reads_strayTokens s, listFree_wrap _ .error _, quiet_report (by decide)⟩

/-! ## Two runs side by side -/

/-- From `s` on, within `outer` lists, `p` is read with one limit and `q` with a larger one. Either
the two are the same, and no list is nested too deep, or they part where the first list is: in `p`
it is reported where it opens in `q`. -/
inductive Abreast (c : Context) (outer : Nat) (s : State) :
    List SyntaxTree × State → List SyntaxTree × State → Prop where
  | together {p : List SyntaxTree × State} (reads : Reads c s p.1 p.2)
    (shallow : Shallow c.limit.depth outer p.1) (quiet : Quiet p.2) : Abreast c outer s p p
  | parted {p q : List SyntaxTree × State} (range : TextRange) (reads : Reads c s p.1 p.2)
    (report : firstTooDeep? p.2 = some range)
    (list : firstBeyond? c.limit.depth outer q.1 = some (some range))
    (length : c.limit.depth < outer + s.ahead.length) : Abreast c outer s p q

namespace Abreast

/-- What is read with the smaller limit is read. -/
theorem reads (h : Abreast c outer s p q) : Reads c s p.1 p.2 := by
  cases h with
  | together hreads => exact hreads
  | parted _ hreads => exact hreads

/-- What has no lists is read abreast with itself. -/
theorem of_plain (hp : Plain c s p) (hs : Quiet s) : Abreast c outer s p p :=
  .together hp.reads hp.listFree.shallow (hp.quiet hs)

/-- To read nothing is to read abreast. -/
theorem nothing (hs : Quiet s) : Abreast c outer s ([], s) ([], s) :=
  .together (.nothing s) ListFree.nil.shallow hs

/-- Once the runs have parted it does not matter what comes behind. -/
theorem append {f g : State → List SyntaxTree × State} (earlier : Abreast c outer s p q)
    (hreads : Reads c p.2 (f p.2).1 (f p.2).2)
    (later : Quiet p.2 → Abreast c outer p.2 (f p.2) (g p.2)) :
    Abreast c outer s (p.1 ++ (f p.2).1, (f p.2).2) (q.1 ++ (g q.2).1, (g q.2).2) := by
  cases earlier with
  | together reads shallow quiet =>
    specialize later quiet
    generalize f p.2 = first, g p.2 = second at later
    cases later with
    | together reads' shallow' quiet' =>
      exact .together (reads.append reads') (shallow.append shallow') quiet'
    | parted range reads' report list length =>
      have hlength := reads.ahead_suffix.length_le
      refine .parted range (reads.append reads') report ?_ (by omega)
      rw [firstBeyond?_append, shallow.firstBeyond?_eq_none, Option.none_or, list]
  | parted range reads report list length =>
    refine .parted range (reads.append hreads) (hreads.firstTooDeep?_eq report) ?_ length
    rw [firstBeyond?_append, list, Option.some_or]

/-- Elements without lists may be read first. -/
theorem after (hp : Plain c s p) (hs : Quiet s) (h : Quiet p.2 → Abreast c outer p.2 q r) :
    Abreast c outer s (p.1 ++ q.1, q.2) (p.1 ++ r.1, r.2) :=
  append (f := fun _ => q) (g := fun _ => r) (of_plain hp hs) (h (hp.quiet hs)).reads h

/-- A token may be expected behind what is read abreast. -/
theorem append_expect (h : Abreast c outer s p q) (kind : TokenKind) :
    Abreast c outer s (p.1 ++ (p.2.expect c kind).1.toList, (p.2.expect c kind).2)
      (q.1 ++ (q.2.expect c kind).1.toList, (q.2.expect c kind).2) :=
  h.append (f := fun s => ((s.expect c kind).1.toList, (s.expect c kind).2))
    (g := fun s => ((s.expect c kind).1.toList, (s.expect c kind).2)) (Reads.expect _ kind)
    (of_plain (plain_expect _ kind))

/-- A node that is no list may be put around what is read abreast. -/
theorem node {kind : NodeKind} (h : Abreast c outer s p q)
    (hkind : kind ≠ .value .list := by decide) :
    Abreast c outer s ([.branch c.source (.node kind) s.offset p.1], p.2)
      ([.branch c.source (.node kind) s.offset q.1], q.2) := by
  cases h with
  | together reads shallow quiet => exact .together (.node kind reads) (.node hkind shallow) quiet
  | parted range reads report list length =>
    refine .parted range (.node kind reads) report ?_ length
    rw [firstBeyond?, SyntaxTree.nestedListsOf_node hkind]
    exact list

/-- A list that is not nested too deep, read behind its opening bracket. -/
theorem list (hahead : s.ahead ≠ []) (houter : outer < c.limit.depth)
    (h : Abreast c (outer + 1) (s.skip 1) p q) :
    Abreast c outer s
      ([.branch c.source (.node (.value .list)) s.offset (s.leaves c 1 ++ p.1)], p.2)
      ([.branch c.source (.node (.value .list)) s.offset (s.leaves c 1 ++ q.1)], q.2) := by
  have hleaves : ListFree (s.leaves c 1) := listFree_leaves s 1
  cases h with
  | together reads shallow quiet =>
    exact .together (.node _ ((Reads.leaves s 1).append reads))
      (.list houter (hleaves.shallow.append shallow)) quiet
  | parted range reads report list length =>
    refine .parted range (.node _ ((Reads.leaves s 1).append reads)) report ?_ ?_
    · rw [SyntaxTree.firstBeyond?_list_of_lt _ _ _ houter, firstBeyond?_append,
        hleaves.shallow.firstBeyond?_eq_none, Option.none_or, list]
    · have hpos := List.length_pos_iff.mpr hahead
      rw [skip_ahead, List.length_drop] at length
      omega

/-- What is read abreast is the same, or parts at the first list nested too deep. -/
theorem eq_or_parted (h : Abreast c outer s p q) :
    (q = p ∧ Shallow c.limit.depth outer p.1 ∧ Quiet p.2) ∨
      c.limit.depth < outer + s.ahead.length ∧ ∃ range, firstTooDeep? p.2 = some range ∧
        firstBeyond? c.limit.depth outer q.1 = some (some range) := by
  cases h with
  | together _ shallow quiet => exact Or.inl ⟨rfl, shallow, quiet⟩
  | parted range _ report list length => exact Or.inr ⟨length, range, report, list⟩

/-- Two runs that read nothing are the same. -/
theorem eq_of_nil {next : State} (h : Abreast c outer s ([], s') ([], next)) :
    next = s' ∧ Quiet s' := by
  cases h with
  | together _ _ quiet => exact ⟨rfl, quiet⟩
  | parted range _ _ list =>
    rw [ListFree.nil.shallow.firstBeyond?_eq_none] at list
    contradiction

end Abreast

/-! ## Values and lists -/

/-- What a routine has read, as a row of elements. -/
def asRow (r : SyntaxTree × State) : List SyntaxTree × State := ([r.1], r.2)

/-- What a routine has read if anything, as a row of elements. -/
def optionAsRow (r : Option SyntaxTree × State) : List SyntaxTree × State := (r.1.toList, r.2)

/-- The report of a list nested too deep is not lost where all others stand before its bracket. -/
theorem firstTooDeep?_tooDeep (hs : Settled c s) (hbeyond : Beyond c s) (hquiet : Quiet s) :
    firstTooDeep? ((tooDeep c).run s).2 = some (s.range c) := by
  have hreports : ((tooDeep c).run s).2.reports = Finding.nestingTooDeep.at (s.range c)
      s!"{Finding.nestingTooDeep.message} Limit is {c.limit.depth}." :: s.reports :=
    hs.report_reports_of_beyond hbeyond _ _
  have hnone := Option.map_eq_none_iff.mp hquiet.firstTooDeep?_eq_none
  rw [firstTooDeep?, hreports, List.reverse_cons, List.find?_append, hnone, Option.none_or,
    List.find?_singleton]
  rfl

/-- A list that lies too deep comes before all that lie within it, and opens with its bracket. -/
theorem firstBeyond?_listOf {limit : Nat} (element : ValueRoutine) (hbracket : s.kind = .lbracket)
    (hle : limit ≤ outer) :
    firstBeyond? limit outer [((listOf c element).run s).1] = some (some (s.range c)) := by
  obtain ⟨t, later, hahead⟩ := exists_ahead_of_kind hbracket (by decide)
  have hkind : (leafOf c t.1).kind = .token .lbracket := congrArg SyntaxKind.token t.2
  have hrange : s.range c = t.1.range := by rw [State.range, hahead]
  simp only [listOf, leaves_one hahead, List.singleton_append]
  rw [SyntaxTree.firstBeyond?_list_of_le _ _ _ hle, SyntaxTree.opening?_branch hkind, hrange]
  rfl

/-- The runs part at a list that one of them takes for nested too deep and the other one reads. -/
theorem abreast_tooDeep {element : ValueRoutine} (houter : outer = c.limit.depth)
    (hs : Settled c s) (hbeyond : Beyond c s) (hquiet : Quiet s) (hbracket : s.kind = .lbracket) :
    Abreast c outer s (asRow ((tooDeep c).run s)) (asRow ((listOf (c.within m) element).run s)) := by
  refine .parted (s.range c) (reads_tooDeep s) (firstTooDeep?_tooDeep hs hbeyond hquiet)
    (firstBeyond?_listOf (c := c.within m) element hbracket houter.ge) ?_
  have hne : s.ahead ≠ [] := ahead_ne_nil_of_kind (by rw [hbracket]; decide)
  have hpos := List.length_pos_iff.mpr hne
  omega

/-- Values are read abreast where lists are. -/
theorem abreast_valueOf {list wide : ListRoutine} (hquiet : Quiet s)
    (hlist : s.kind = .lbracket → Abreast c outer s (asRow (list.run s)) (asRow (wide.run s))) :
    Abreast c outer s (optionAsRow ((valueOf c list).run s))
      (optionAsRow ((valueOf (c.within m) wide).run s)) := by
  simp only [valueOf]
  split
  · rename_i hbracket
    exact hlist hbracket
  · split
    · rename_i kind writes
      exact .of_plain (plain_wrap s (.value kind) 1 (kind_ne_list_of_ofToken? writes)) hquiet
    · exact .of_plain (plain_report s .expectedValue _) hquiet

/-- Whether a value starts at a token is not a matter of the limit. -/
theorem isSome_valueOf (list wide : ListRoutine) (s : State) :
    ((valueOf (c.within m) wide).run s).1.isSome = ((valueOf c list).run s).1.isSome := by
  simp only [valueOf]
  split
  · rfl
  · split <;> rfl

/-- What comes behind a value in a list. -/
def itemsBehind (c : Context) (element : ValueRoutine) (s : State) : List SyntaxTree × State :=
  match s.accept c .comma with
  | (none, _) => ([], s)
  | (some comma, after) => (comma :: (items c element after).1, (items c element after).2)

/-- The items from a value on are that value and what comes behind it. -/
theorem items_some {element : ValueRoutine} {value : SyntaxTree}
    (hends : endsList s.kind = false) (hvalue : element.run s = (some value, s')) :
    items c element s =
      (value :: (itemsBehind c element s').1, (itemsBehind c element s').2) := by
  rw [itemsBehind]
  cases hcomma : s'.accept c .comma with
  | mk found after =>
    cases found with
    | none => exact items_last hends hvalue hcomma
    | some comma => exact items_more hends hvalue hcomma

/-- What comes behind a value in a list is read. -/
theorem reads_itemsBehind {element : ValueRoutine}
    (helement : ∀ s, Reads c s (element.run s).1.toList (element.run s).2) (s : State) :
    Reads c s (itemsBehind c element s).1 (itemsBehind c element s).2 := by
  have hcomma := Reads.accept (c := c) s .comma
  unfold itemsBehind
  split
  · exact .nothing s
  · rename_i comma after heq
    rw [heq] at hcomma
    exact hcomma.append (reads_items helement after)

/-- Two routines for values within `outer` lists read abreast from where no report stands at the
current token. Whether they find a value is not a matter of the limit. -/
structure Paired (c : Context) (outer : Nat) (element wide : ValueRoutine) : Prop where
  reads : ∀ s, Reads c s (element.run s).1.toList (element.run s).2
  found : ∀ s, (wide.run s).1.isSome = (element.run s).1.isSome
  abreast : ∀ s, Settled c s → Beyond c s → Quiet s →
    Abreast c outer s (optionAsRow (element.run s)) (optionAsRow (wide.run s))

section Items

variable {element wide : ValueRoutine} {value : SyntaxTree} {next : State}

/-- Where one of two paired routines finds no value, neither does the other. -/
theorem Paired.wide_none (h : Paired c outer element wide) (hs : Settled c s)
    (hbeyond : Beyond c s) (hquiet : Quiet s) (hrun : element.run s = (none, next)) :
    wide.run s = (none, next) ∧ Plain c s ([], next) := by
  obtain ⟨found, next', hwide⟩ : ∃ found next', wide.run s = (found, next') := ⟨_, _, rfl⟩
  have hsame := h.found s
  have hnone := h.abreast s hs hbeyond hquiet
  rw [hrun, hwide] at hsame hnone
  obtain rfl : found = none := by simpa using hsame
  have hreads : Reads c s [] next := hnone.reads
  obtain ⟨rfl, hnext⟩ : next' = next ∧ Quiet next := hnone.eq_of_nil
  exact ⟨hwide, hreads, .nil, fun _ => hnext⟩

/-- Where one of two paired routines finds a value, both read abreast. -/
theorem Paired.wide_some (h : Paired c outer element wide) (hs : Settled c s)
    (hbeyond : Beyond c s) (hquiet : Quiet s) (hrun : element.run s = (some value, next)) :
    ∃ value' next', wide.run s = (some value', next') ∧
      Abreast c outer s ([value], next) ([value'], next') := by
  obtain ⟨found, next', hwide⟩ : ∃ found next', wide.run s = (found, next') := ⟨_, _, rfl⟩
  have hsame := h.found s
  have hvalue := h.abreast s hs hbeyond hquiet
  rw [hrun, hwide] at hsame hvalue
  obtain ⟨value', rfl⟩ := Option.isSome_iff_exists.mp hsame
  exact ⟨value', next', hwide, hvalue⟩

/-- Behind a value that both runs have read they go on alike. -/
theorem Paired.items_some (h : Paired c outer element wide) (hs : Settled c s)
    (hbeyond : Beyond c s) (hquiet : Quiet s) (hends : endsList s.kind = false)
    (hrun : element.run s = (some value, next))
    (hbehind : Settled c next → Quiet next → Abreast c outer next (itemsBehind c element next)
      (itemsBehind (c.within m) wide next)) :
    Abreast c outer s (items c element s) (items (c.within m) wide s) := by
  obtain ⟨value', next', hwide, hvalue⟩ := h.wide_some hs hbeyond hquiet hrun
  rw [Parse.items_some hends hrun, Parse.items_some hends hwide]
  exact hvalue.append (reads_itemsBehind h.reads next) (hbehind (hvalue.reads.settled hs))

/-- Each round of the loop starts beyond all earlier reports, as it does for `keeps_items`. -/
theorem abreast_items (h : Paired c outer element wide) (hs : Settled c s) (hbeyond : Beyond c s)
    (hquiet : Quiet s) : Abreast c outer s (items c element s) (items (c.within m) wide s) := by
  induction s using items.induct c element with
  | case1 s hends =>
    rw [items_end hends, items_end hends]
    exact .nothing hquiet
  | case2 s hends next hrun ih =>
    obtain ⟨hwide, hplain⟩ := h.wide_none hs hbeyond hquiet hrun
    have hkind : next.kind ≠ .eof := by
      rw [State.kind, hplain.reads.ahead_eq]
      exact fun heof => hends (by rw [State.kind, heof]; rfl)
    have hnext := hplain.reads.settled hs
    rw [items_none (by simpa using hends) hrun, items_none (by simpa using hends) hwide]
    exact .after hplain hquiet fun hnone => .after (plain_wrap next .error 1) hnone fun hskip =>
      ih ((Reads.wrap next .error 1).settled hnext) (beyond_skip_one hnext hkind) hskip
  | case3 s hends value next hrun same hcomma =>
    refine h.items_some hs hbeyond hquiet (by simpa using hends) hrun fun _ hvalue => ?_
    rw [itemsBehind, itemsBehind, show next.accept (c.within m) .comma = (none, same) from hcomma,
      hcomma]
    exact .nothing hvalue
  | case4 s hends value next hrun comma after hcomma ih =>
    have hplain := plain_accept (c := c) next .comma
    rw [hcomma] at hplain
    refine h.items_some hs hbeyond hquiet (by simpa using hends) hrun fun hnext hvalue => ?_
    rw [itemsBehind, itemsBehind, hcomma,
      show next.accept (c.within m) .comma = (some comma, after) from hcomma]
    exact .after hplain hvalue fun hafter =>
      ih (hplain.reads.settled hnext) (beyond_of_accept hnext hcomma (by decide)) hafter

/-- A list is read abreast by routines that are paired within it. -/
theorem abreast_listOf (h : Paired c (outer + 1) element wide) (houter : outer < c.limit.depth)
    (hs : Settled c s) (hquiet : Quiet s) (hbracket : s.kind = .lbracket) :
    Abreast c outer s (asRow ((listOf c element).run s))
      (asRow ((listOf (c.within m) wide).run s)) := by
  have heof : s.kind ≠ .eof := by
    rw [hbracket]
    decide
  have hitems := abreast_items (m := m) h ((Reads.leaves s 1).settled hs) (beyond_skip_one hs heof)
    hquiet
  exact .list (ahead_ne_nil_of_kind heof) houter (hitems.append_expect .rbracket)

end Items

/-- The runs are abreast as long as both have levels left, and part where one has none. Only there
does it matter that no other report stands at the bracket. -/
theorem abreast_lists {levels : Nat} (more : Nat) (hlevels : outer + levels = c.limit.depth)
    (hs : Settled c s) (hbeyond : levels = 0 → Beyond c s) (hquiet : Quiet s)
    (hbracket : s.kind = .lbracket) :
    Abreast c outer s (asRow ((lists c levels).run s))
      (asRow ((lists (c.within m) (more + 1 + levels)).run s)) := by
  induction levels generalizing outer s with
  | zero => exact abreast_tooDeep hlevels hs (hbeyond rfl) hquiet hbracket
  | succ levels ih =>
    have hinner : outer + 1 + levels = c.limit.depth := by omega
    refine abreast_listOf ⟨reads_valueOf (reads_lists levels), isSome_valueOf _ _,
      fun s hs hbeyond hquiet => ?_⟩ (by omega) hs hquiet hbracket
    exact abreast_valueOf hquiet (ih hinner hs (fun _ => hbeyond) hquiet)

section Wider

variable (hlt : c.limit.depth < m.depth)

include hlt

/-- The value of a field may be a list, as at least one level of nesting is allowed. -/
theorem abreast_value (hs : Settled c s) (hquiet : Quiet s) :
    Abreast c 0 s (optionAsRow (value c c.limit.depth s))
      (optionAsRow (value (c.within m) m.depth s)) := by
  obtain ⟨more, hmore⟩ : ∃ more, m.depth = more + 1 + c.limit.depth :=
    ⟨m.depth - c.limit.depth - 1, by omega⟩
  have hpos := c.limit.one_le_depth
  rw [hmore]
  exact abreast_valueOf hquiet (abreast_lists more (Nat.zero_add _) hs (by omega) hquiet)

/-- Fields are read abreast. -/
theorem abreast_field (hs : Settled c s) (hquiet : Quiet s) :
    Abreast c 0 s (asRow (field c s)) (asRow (field (c.within m) s)) := by
  have hkey : Plain c s ([(s.wrap c .fieldKey 1).1], s.skip 1) := plain_wrap s .fieldKey 1
  have hcolon := plain_expect (c := c) (s.skip 1) .colon
  have hcontent (next : State) (hs : Settled c next) (hquiet : Quiet next) (found : Bool) :
      Abreast c 0 next (optionAsRow (if found then value c c.limit.depth next else (none, next)))
        (optionAsRow (if found then value (c.within m) m.depth next else (none, next))) := by
    cases found with
    | false => exact .nothing hquiet
    | true => exact abreast_value hlt hs hquiet
  exact .node (.after hkey hquiet fun hquiet => .after hcolon hquiet fun hquiet =>
    hcontent _ (hcolon.reads.settled (hkey.reads.settled hs)) hquiet _)

/-- Bodies are read abreast. -/
theorem abreast_body (hs : Settled c s) (hquiet : Quiet s) :
    Abreast c 0 s (body c s) (body (c.within m) s) := by
  induction s using body.induct c with
  | case1 s hends =>
    rw [body_end hends, body_end hends]
    exact .nothing hquiet
  | case2 s hends hname comma ih =>
    have hfield := abreast_field hlt hs hquiet
    have hcomma := plain_accept (c := c) (field c s).2 .comma
    rw [body_field (by simpa using hends) hname, body_field (by simpa using hends) hname]
    exact hfield.append
      (f := fun next => ((next.accept c .comma).1.toList ++ (body c (next.accept c .comma).2).1,
        (body c (next.accept c .comma).2).2))
      (g := fun next => ((next.accept c .comma).1.toList ++
        (body (c.within m) (next.accept c .comma).2).1,
        (body (c.within m) (next.accept c .comma).2).2))
      (hcomma.reads.append (reads_body _)) fun hquiet => .after hcomma hquiet
        (ih (hcomma.reads.settled (hfield.reads.settled hs)))
  | case3 s hends hname reported ih =>
    rw [Bool.not_eq_true] at hends hname
    rw [body_misplaced hends hname, body_misplaced hends hname]
    have hreport : Plain c s ([], reported) := plain_report s .unexpectedToken _
    have hskip := plain_wrap (c := c) reported .error 1
    exact .after hreport hquiet fun hquiet => .after hskip hquiet
      (ih (hskip.reads.settled (hreport.reads.settled hs)))

/-- Blocks are read abreast. -/
theorem abreast_block (hs : Settled c s) (hquiet : Quiet s) :
    Abreast c 0 s (block c s) (block (c.within m) s) := by
  have hopen := plain_expect (c := c) s .lbrace
  obtain ⟨found, next, hexpect⟩ : ∃ found next, s.expect c .lbrace = (found, next) := ⟨_, _, rfl⟩
  rw [hexpect] at hopen
  rw [block, block, show s.expect (c.within m) .lbrace = (found, next) from hexpect, hexpect]
  cases found with
  | none => exact .after hopen hquiet (.of_plain (plain_wrap next .error _))
  | some brace =>
    exact .after hopen hquiet fun hquiet =>
      (abreast_body hlt (hopen.reads.settled hs) hquiet).append_expect .rbrace

/-- Declarations are read abreast. -/
theorem abreast_declaration (hs : Settled c s) (hquiet : Quiet s) :
    Abreast c 0 s (asRow (declaration c s)) (asRow (declaration (c.within m) s)) := by
  rw [declaration, declaration]
  cases CitizenKind.ofDirective? s.text with
  | none =>
    exact .after (plain_report s .unknownDirective _) hquiet (.of_plain (plain_wrap _ .error _))
  | some kind =>
    have hdirective := plain_leaves (c := c) s 1
    have hname := plain_declarationName (c := c) (s.skip 1)
    exact .node (.after hdirective hquiet fun hquiet => .after hname hquiet
      (abreast_block hlt (hname.reads.settled (hdirective.reads.settled hs)))) (by simp)

/-- The declarations of a document are read abreast. -/
theorem abreast_declarations (hs : Settled c s) (hquiet : Quiet s) :
    Abreast c 0 s (declarations c s) (declarations (c.within m) s) := by
  induction s using declarations.induct c with
  | case1 s heof =>
    rw [declarations_end heof, declarations_end heof]
    exact .nothing hquiet
  | case2 s heof next ih =>
    by_cases hdirective : s.kind = .directive
    · have hread : next = declaration c s := if_pos hdirective
      have hdeclaration := abreast_declaration hlt hs hquiet
      rw [hread] at ih
      rw [declarations_directive hdirective, declarations_directive hdirective]
      exact hdeclaration.append (f := declarations c) (g := declarations (c.within m))
        (reads_declarations _) (ih (hdeclaration.reads.settled hs))
    · have hread : next = strayTokens c s := if_neg hdirective
      have hstray := plain_strayTokens (c := c) s
      rw [hread] at ih
      rw [declarations_stray hdirective heof, declarations_stray hdirective heof]
      exact .after hstray hquiet (ih (hstray.reads.settled hs))

/-- Two runs over a whole document are abreast. -/
theorem abreast_sourceFile (hs : Settled c s) (hquiet : Quiet s) :
    Abreast c 0 s (asRow (sourceFile c s)) (asRow (sourceFile (c.within m) s)) :=
  .node (abreast_declarations hlt hs hquiet)

end Wider

end Parse

/-! ## Documents -/

namespace Document

open SyntaxTree (Shallow firstBeyond?)

variable {source : SourceText} {n m : NestingLimit}

/-- With a larger limit a text is parsed as before, or it is not and the first list that is nested
too deep was reported where it opens. -/
theorem parse_eq_or_parted (source : SourceText) (hlt : n.depth < m.depth) :
    (parse source m = parse source n ∧ Shallow n.depth 0 [(parse source n).sourceFile] ∧
      ∀ d ∈ reports source n, d.isTooDeep = false) ∨
    n.depth < (significantTokens source.toList).length ∧ ∃ range,
      ((reports source n).find? Diagnostic.isTooDeep).map Diagnostic.range = some range ∧
        firstBeyond? n.depth 0 [(parse source m).sourceFile] = some (some range) := by
  have habreast := Parse.abreast_sourceFile (c := ⟨source, n⟩) hlt
    (Parse.settled_initial source n) (by simp [Parse.Quiet, Parse.State.initial])
  rcases habreast.eq_or_parted with ⟨hsame, hshallow, hquiet⟩ | ⟨hlength, hparted⟩
  · have hresult : Parse.sourceFile ⟨source, m⟩ (.initial source.toList) =
        Parse.sourceFile ⟨source, n⟩ (.initial source.toList) := by
      obtain ⟨htree, hstate⟩ := Prod.mk.inj hsame
      exact Prod.ext (List.cons.inj htree).1 hstate
    refine Or.inl ⟨?_, hshallow, fun d hd => hquiet d (List.mem_reverse.mp hd)⟩
    simp only [parse, hresult]
  · rw [Nat.zero_add] at hlength
    exact Or.inr ⟨hlength, hparted⟩

/-- No more lists can be nested than there are tokens. -/
theorem quiet_of_length_le (h : (significantTokens source.toList).length ≤ n.depth) :
    ∀ d ∈ reports source n, d.isTooDeep = false := by
  have hlt : n.depth < (⟨n.depth + 1, by omega⟩ : NestingLimit).depth := Nat.lt_succ_self _
  rcases parse_eq_or_parted source hlt with ⟨-, -, hquiet⟩ | ⟨hlength, -⟩
  · exact hquiet
  · omega

/-- A limit at which nothing is nested too deep may as well be larger. -/
theorem parse_eq_of_quiet (hle : n.depth ≤ m.depth)
    (hquiet : ∀ d ∈ reports source n, d.isTooDeep = false) : parse source m = parse source n := by
  rcases Nat.lt_or_eq_of_le hle with hlt | heq
  · rcases parse_eq_or_parted source hlt with ⟨hsame, -⟩ | ⟨-, range, hreport, -⟩
    · exact hsame
    · obtain ⟨d, hd, -⟩ := Option.map_eq_some_iff.mp hreport
      have hfalse := hquiet d (List.mem_of_find?_eq_some hd)
      exact absurd (List.find?_some hd) (hfalse ▸ Bool.false_ne_true)
  · obtain ⟨depth, _⟩ := n
    obtain rfl : depth = m.depth := heq
    rfl

/-- The first report of a list nested too deep stands where the first such list opens that a limit
shows at which nothing is nested too deep. -/
theorem find?_reports (hlength : (significantTokens source.toList).length ≤ m.depth) :
    ((reports source n).find? Diagnostic.isTooDeep).map (fun d => some d.range) =
      firstBeyond? n.depth 0 [(parse source m).sourceFile] := by
  have hnone {limit : NestingLimit} (hquiet : ∀ d ∈ reports source limit, d.isTooDeep = false) :
      (reports source limit).find? Diagnostic.isTooDeep = none :=
    List.find?_eq_none.mpr fun d hd => by rw [hquiet d hd]; exact Bool.false_ne_true
  rcases Nat.lt_or_ge n.depth m.depth with hlt | hge
  · rcases parse_eq_or_parted source hlt with
      ⟨hsame, hshallow, hquiet⟩ | ⟨-, range, hreport, hlist⟩
    · rw [hnone hquiet, hsame, hshallow.firstBeyond?_eq_none]
      rfl
    · obtain ⟨d, hd, rfl⟩ := Option.map_eq_some_iff.mp hreport
      rw [hlist, hd]
      rfl
  · have hshallow : Shallow m.depth 0 [(parse source m).sourceFile] := Parse.shallow_sourceFile _
    have hbelow : Shallow n.depth 0 [(parse source m).sourceFile] := fun e he =>
      Nat.lt_of_lt_of_le (hshallow e he) hge
    rw [hnone (quiet_of_length_le (Nat.le_trans hlength hge)), hbelow.firstBeyond?_eq_none]
    rfl

/-- The diagnostics about lists nested too deep are the reports about them, in the same order. -/
theorem filter_isTooDeep (source : SourceText) (n : NestingLimit) :
    (parse source n).diagnostics.filter Diagnostic.isTooDeep =
      (reports source n).filter Diagnostic.isTooDeep := by
  have hlexical : (lexicalDiagnostics source.toList).filter Diagnostic.isTooDeep = [] := by
    refine List.filter_eq_nil_iff.mpr fun d hd => ?_
    rcases code_of_mem_lexicalDiagnostics hd with hcode | hcode
    all_goals
      rw [Diagnostic.isTooDeep, hcode]
      decide
  have hperm := (diagnostics_perm source n).filter Diagnostic.isTooDeep
  rw [List.filter_append, hlexical, List.nil_append] at hperm
  have hsorted : ((parse source n).diagnostics.filter Diagnostic.isTooDeep).Pairwise
      fun d later => d.range.start ≤ later.range.start :=
    ((Diagnostic.collect_pairwise _).imp Diagnostic.start_le_of_sortKey_le).sublist
      List.filter_sublist
  have hordered : ((reports source n).filter Diagnostic.isTooDeep).Pairwise
      fun d later => d.range.start ≤ later.range.start :=
    ((reports_pairwise source n).imp Nat.le_of_lt).sublist List.filter_sublist
  -- no two reports start at one place, so there is but one order
  refine hperm.eq_of_pairwise (fun d e hd he hde hed => ?_) hsorted hordered
  exact Parse.eq_of_pairwise_lt (reports_pairwise source n)
    (List.mem_filter.mp (hperm.subset hd)).1 (List.mem_filter.mp he).1 (Nat.le_antisymm hde hed)

/-- No list of a text is nested too deep exactly if the parser reports none that is. -/
theorem quiet_iff : (∀ d ∈ (parse source n).diagnostics, d.code ≠ Finding.nestingTooDeep.code) ↔
    ∀ d ∈ reports source n, d.isTooDeep = false := by
  have hfilter := filter_isTooDeep source n
  have hdiagnostics : (∀ d ∈ (parse source n).diagnostics, d.code ≠ Finding.nestingTooDeep.code) ↔
      (parse source n).diagnostics.filter Diagnostic.isTooDeep = [] := by
    simp [List.filter_eq_nil_iff, Diagnostic.isTooDeep]
  rw [hdiagnostics, hfilter, List.filter_eq_nil_iff]
  simp only [Bool.not_eq_true]

/-- The nesting limit bounds the lists of a tree and makes no difference otherwise. No list lies
within as many others as the limit says. Where none is reported as nested too deep, a larger limit
gives the same tree and the same diagnostics. And with a limit of as many tokens as the text has
none is ever; the first report of one, with any other limit, stands at the bracket that opens the
first list, in the order of the text, that lies within as many others as that limit says, or
more. -/
theorem nesting_limit_bounds (source : SourceText) (n : NestingLimit) :
    (∀ e ∈ (parse source n).root.nestedLists 0, e.1 ≤ n.depth - 1) ∧
    (∀ m : NestingLimit, n.depth ≤ m.depth →
      (∀ d ∈ (parse source n).diagnostics, d.code ≠ Finding.nestingTooDeep.code) →
        parse source m = parse source n) ∧
    ∀ m : NestingLimit, (significantTokens source.toList).length ≤ m.depth →
      (∀ d ∈ (parse source m).diagnostics, d.code ≠ Finding.nestingTooDeep.code) ∧
      ((parse source n).diagnostics.find? fun d => d.code = Finding.nestingTooDeep.code).map
          (fun d => some d.range) =
        (((parse source m).root.nestedLists 0).find? fun e => n.depth ≤ e.1).map
          fun e => e.2.opening? := by
  have hroot (limit : NestingLimit) : (parse source limit).root.nestedLists 0 =
      SyntaxTree.nestedListsOf 0 [(parse source limit).sourceFile] :=
    (SyntaxTree.nestedListsOf_singleton 0 _).symm.trans
      (SyntaxTree.nestedListsOf_node (by decide : NodeKind.root ≠ .value .list) source 0 0 _)
  refine ⟨fun e he => ?_, fun m hle hcodes => parse_eq_of_quiet hle (quiet_iff.mp hcodes),
    fun m hlength => ⟨quiet_iff.mpr (quiet_of_length_le hlength), ?_⟩⟩
  · rw [hroot] at he
    exact Nat.le_sub_one_of_lt (Parse.shallow_sourceFile _ e he)
  · have hfind : (parse source n).diagnostics.find? Diagnostic.isTooDeep =
        (reports source n).find? Diagnostic.isTooDeep := by
      rw [← List.head?_filter, filter_isTooDeep, List.head?_filter]
    rw [hroot]
    exact (congrArg _ hfind).trans (find?_reports hlength)

/-- The list within two others is reported where it opens. -/
example : (parse (.ofString "@Era E \x7bx: [1, [[2]]]\x7d") ⟨2, by decide⟩).diagnostics.map
    Diagnostic.range = [⟨16, 17, by decide⟩] := by
  decide +kernel

end Document

end WorldDoc
