import WorldDoc.Proofs.Parse.Reading

/-!
# How deep lists are nested

The lists of a tree are listed in the order in which they begin, each with the number of lists
around it (`SyntaxTree.nestedLists`). The parser makes no list that lies within as many others as
the limit says (`shallow_sourceFile`), whatever the text is.

The bound comes from the routine for lists alone, which is called with one level less for each list
around it. Whatever else is taken is a row of tokens, or an error node over one, and holds no list
(`ListFree`).
-/

namespace WorldDoc

namespace SyntaxTree

mutual

/-- The lists of a tree that lies within `outer` lists, from left to right and each before those
within it, with the number of lists that it lies in. -/
def nestedLists (outer : Nat) : SyntaxTree → List (Nat × SyntaxTree)
  | token _ _ _ => []
  | node k r x cs =>
    if k = .node (.value .list) then (outer, node k r x cs) :: nestedListsOf (outer + 1) cs
    else nestedListsOf outer cs

/-- The lists of some neighbouring elements that lie within `outer` lists. -/
def nestedListsOf (outer : Nat) : List SyntaxTree → List (Nat × SyntaxTree)
  | [] => []
  | t :: ts => t.nestedLists outer ++ nestedListsOf outer ts

end

/-- The range of the bracket that opens a list. -/
def opening? (t : SyntaxTree) : Option TextRange :=
  (t.children.head?.filter fun first => first.kind = .token .lbracket).map range

/-- Where the first of the lists opens that lie within as many lists as the limit says, or more. -/
def firstBeyond? (limit outer : Nat) (ts : List SyntaxTree) : Option (Option TextRange) :=
  ((nestedListsOf outer ts).find? fun e => limit ≤ e.1).map fun e => e.2.opening?

variable {source : SourceText} {offset limit outer : Nat} {ts us : List SyntaxTree}

/-- A list that has its bracket opens there. -/
theorem opening?_branch {kind : SyntaxKind} {first : SyntaxTree}
    (h : first.kind = .token .lbracket) :
    (branch source kind offset (first :: ts)).opening? = some first.range := by
  show ((some first).filter fun first => decide (first.kind = .token .lbracket)).map range = _
  rw [Option.filter_some, if_pos (decide_eq_true h), Option.map_some]

@[simp] theorem nestedListsOf_nil (outer : Nat) : nestedListsOf outer [] = [] := by
  rw [nestedListsOf]

/-- The lists of a single element are its own. -/
theorem nestedListsOf_singleton (outer : Nat) (t : SyntaxTree) :
    nestedListsOf outer [t] = t.nestedLists outer := by
  rw [nestedListsOf, nestedListsOf_nil, List.append_nil]

/-- Neighbouring elements have their lists one after the other. -/
@[simp] theorem nestedListsOf_append (outer : Nat) (ts us : List SyntaxTree) :
    nestedListsOf outer (ts ++ us) = nestedListsOf outer ts ++ nestedListsOf outer us := by
  induction ts with
  | nil => rw [nestedListsOf_nil, List.nil_append, List.nil_append]
  | cons t ts ih => rw [List.cons_append, nestedListsOf, nestedListsOf, ih, List.append_assoc]

/-- A list comes before those that lie within it. -/
theorem nestedListsOf_list (source : SourceText) (offset outer : Nat) (ts : List SyntaxTree) :
    nestedListsOf outer [branch source (.node (.value .list)) offset ts] =
      (outer, branch source (.node (.value .list)) offset ts) :: nestedListsOf (outer + 1) ts := by
  rw [nestedListsOf_singleton, branch, nestedLists, if_pos rfl]

/-- A node that is no list has the lists of its elements, and they lie no deeper for it. -/
theorem nestedListsOf_node {kind : NodeKind} (hkind : kind ≠ .value .list) (source : SourceText)
    (offset outer : Nat) (ts : List SyntaxTree) :
    nestedListsOf outer [branch source (.node kind) offset ts] = nestedListsOf outer ts := by
  have hne : SyntaxKind.node kind ≠ .node (.value .list) := fun h => hkind (SyntaxKind.node.inj h)
  rw [nestedListsOf_singleton, branch, nestedLists, if_neg hne]

/-- A list at or beyond the limit is itself the first one found. -/
theorem firstBeyond?_list_of_le (source : SourceText) (offset : Nat) (ts : List SyntaxTree)
    (hle : limit ≤ outer) :
    firstBeyond? limit outer [branch source (.node (.value .list)) offset ts] =
      some (branch source (.node (.value .list)) offset ts).opening? := by
  have hlist : decide (limit ≤ outer) = true := decide_eq_true hle
  simp only [firstBeyond?, nestedListsOf_list, List.find?_cons, hlist, Option.map_some]

/-- A list within the limit is passed over, and the search goes on one level further in. -/
theorem firstBeyond?_list_of_lt (source : SourceText) (offset : Nat) (ts : List SyntaxTree)
    (hlt : outer < limit) :
    firstBeyond? limit outer [branch source (.node (.value .list)) offset ts] =
      firstBeyond? limit (outer + 1) ts := by
  have hlist : decide (limit ≤ outer) = false := decide_eq_false (Nat.not_le.mpr hlt)
  simp only [firstBeyond?, nestedListsOf_list, List.find?_cons, hlist]

/-- The search goes through neighbouring elements from left to right. -/
theorem firstBeyond?_append (limit outer : Nat) (ts us : List SyntaxTree) :
    firstBeyond? limit outer (ts ++ us) =
      (firstBeyond? limit outer ts).or (firstBeyond? limit outer us) := by
  simp only [firstBeyond?, nestedListsOf_append, List.find?_append, Option.map_or]

/-! ## Elements without lists -/

/-- Elements hold no list. -/
def ListFree (ts : List SyntaxTree) : Prop := ∀ outer, nestedListsOf outer ts = []

namespace ListFree

theorem nil : ListFree [] := nestedListsOf_nil

/-- Where neither part holds a list the whole holds none. -/
theorem append (hts : ListFree ts) (hus : ListFree us) : ListFree (ts ++ us) := fun outer => by
  rw [nestedListsOf_append, hts, hus, List.append_nil]

/-- A node that is no list holds none if its elements hold none. -/
theorem node {kind : NodeKind} (hkind : kind ≠ .value .list) (hts : ListFree ts) :
    ListFree [branch source (.node kind) offset ts] := fun outer => by
  rw [nestedListsOf_node hkind, hts]

end ListFree

/-! ## Elements whose lists are not nested too deep -/

/-- All lists of elements that lie within `outer` lists lie within fewer lists than the limit. -/
def Shallow (limit outer : Nat) (ts : List SyntaxTree) : Prop :=
  ∀ e ∈ nestedListsOf outer ts, e.1 < limit

/-- Where there is no list none is nested too deep. -/
theorem ListFree.shallow (h : ListFree ts) : Shallow limit outer ts := fun e he => by
  rw [h] at he
  exact absurd he List.not_mem_nil

namespace Shallow

/-- Where no list is nested too deep none is found. -/
theorem firstBeyond?_eq_none (h : Shallow limit outer ts) : firstBeyond? limit outer ts = none := by
  rw [firstBeyond?, Option.map_eq_none_iff, List.find?_eq_none]
  intro e he hle
  exact Nat.not_le.mpr (h e he) (of_decide_eq_true hle)

/-- Where neither part has a list nested too deep the whole has none. -/
theorem append (hts : Shallow limit outer ts) (hus : Shallow limit outer us) :
    Shallow limit outer (ts ++ us) := fun e he => by
  rw [nestedListsOf_append] at he
  exact (List.mem_append.mp he).elim (hts e) (hus e)

/-- A node that is no list brings none of its elements' lists any deeper. -/
theorem node {kind : NodeKind} (hkind : kind ≠ .value .list) (h : Shallow limit outer ts) :
    Shallow limit outer [branch source (.node kind) offset ts] := fun e he => by
  rw [nestedListsOf_node hkind] at he
  exact h e he

/-- A list below the limit is not too deep, and within it one level less is left. -/
theorem list (houter : outer < limit) (h : Shallow limit (outer + 1) ts) :
    Shallow limit outer [branch source (.node (.value .list)) offset ts] := fun e he => by
  rw [nestedListsOf_list] at he
  rcases List.mem_cons.mp he with rfl | he
  · exact houter
  · exact h e he

end Shallow

end SyntaxTree

namespace Parse

open State
open SyntaxTree (ListFree Shallow)

variable {c : Context} {s : State} {limit outer : Nat}

/-! ## Tokens and error nodes -/

/-- Leaves hold no list. -/
theorem listFree_leaves (s : State) (n : Nat) : ListFree (s.leaves c n) := fun outer => by
  rw [State.leaves]
  induction s.ahead.take n with
  | nil => rw [List.map_nil, SyntaxTree.nestedListsOf_nil]
  | cons t taken ih =>
    rw [List.map_cons, SyntaxTree.nestedListsOf, ih, leafOf, SyntaxTree.leaf,
      SyntaxTree.nestedLists, List.append_nil]

/-- A node over plain tokens holds no list unless it is one. -/
theorem listFree_wrap (s : State) (kind : NodeKind) (n : Nat)
    (hkind : kind ≠ .value .list := by decide) : ListFree [(s.wrap c kind n).1] :=
  .node hkind (listFree_leaves s n)

/-- What an accepted token adds holds no list. -/
theorem listFree_accept (s : State) (kind : TokenKind) : ListFree (s.accept c kind).1.toList := by
  unfold State.accept
  split
  · exact .nil
  · rename_i t later hahead
    split
    · have hleaf := listFree_leaves (c := c) s 1
      rwa [State.leaves, hahead] at hleaf
    · exact .nil

/-- What an expected token adds holds no list. -/
theorem listFree_expect (s : State) (kind : TokenKind) : ListFree (s.expect c kind).1.toList := by
  have haccept := listFree_accept (c := c) s kind
  unfold State.expect
  split
  · rename_i leaf next heq
    rwa [heq] at haccept
  · exact .nil

/-- The name of a declaration holds no list. -/
theorem listFree_declarationName (s : State) : ListFree (declarationName c s).1 := by
  unfold declarationName
  split
  · exact listFree_wrap s .name 1
  · exact .nil

/-- The value of a single token is no list. -/
theorem kind_ne_list_of_ofToken? {token : TokenKind} {kind : ValueKind}
    (h : ValueKind.ofToken? token = some kind) : NodeKind.value kind ≠ .value .list := by
  rintro ⟨⟩
  cases token <;> simp [ValueKind.ofToken?] at h

/-! ## Values -/

/-- A value is shallow if what the routine for lists reads is. -/
theorem shallow_valueOf {list : ListRoutine} (hlist : Shallow limit outer [(list.run s).1]) :
    Shallow limit outer ((valueOf c list).run s).1.toList := by
  simp only [valueOf]
  split
  · exact hlist
  · split
    · rename_i kind writes
      exact (listFree_wrap s _ 1 (kind_ne_list_of_ofToken? writes)).shallow
    · exact ListFree.nil.shallow

/-- The items of a list are as shallow as their values. -/
theorem shallow_items {element : ValueRoutine}
    (helement : ∀ s, Shallow limit outer (element.run s).1.toList) (s : State) :
    Shallow limit outer (items c element s).1 := by
  fun_induction items c element s with
  | case1 s hends => exact ListFree.nil.shallow
  | case2 s hends next heq later ih => exact (listFree_wrap next .error 1).shallow.append ih
  | case3 s hends value next heq same hcomma =>
    have hvalue := helement s
    rwa [heq] at hvalue
  | case4 s hends value next heq comma after hcomma later ih =>
    have hvalue := helement s
    rw [heq] at hvalue
    have hfree := listFree_accept (c := c) next .comma
    rw [hcomma] at hfree
    exact hvalue.append (hfree.shallow.append ih)

/-- A list is shallow below the limit, if its values are shallow one level further in. -/
theorem shallow_listOf {element : ValueRoutine} (houter : outer < limit)
    (helement : ∀ s, Shallow limit (outer + 1) (element.run s).1.toList) (s : State) :
    Shallow limit outer [((listOf c element).run s).1] :=
  .list houter ((listFree_leaves s 1).shallow.append
    ((shallow_items helement _).append (listFree_expect _ .rbracket).shallow))

/-- With each list around it the routine for lists has one level less. -/
theorem shallow_lists {levels : Nat} (hlevels : outer + levels = limit) (s : State) :
    Shallow limit outer [((lists c levels).run s).1] := by
  induction levels generalizing outer s with
  | zero => exact (listFree_wrap _ .error _).shallow
  | succ levels ih =>
    have hinner : outer + 1 + levels = limit := by omega
    exact shallow_listOf (by omega) (fun s => shallow_valueOf (ih hinner s)) s

/-- No list of a value is nested too deep: the routine for it has just as many levels as the
limit. -/
theorem shallow_value (s : State) : Shallow c.limit.depth 0 (value c c.limit.depth s).1.toList :=
  shallow_valueOf (shallow_lists (Nat.zero_add _) s)

/-! ## Declarations -/

/-- No list of a field is nested too deep. -/
theorem shallow_field (s : State) : Shallow c.limit.depth 0 [(field c s).1] := by
  have hcontent (next : State) (found : Bool) : Shallow c.limit.depth 0
      (if found then value c c.limit.depth next else (none, next)).1.toList := by
    cases found with
    | false => exact ListFree.nil.shallow
    | true => exact shallow_value next
  exact .node nofun ((listFree_wrap s .fieldKey 1).shallow.append
    ((listFree_expect _ .colon).shallow.append (hcontent _ _)))

/-- No list in the fields of a body is nested too deep. -/
theorem shallow_body (s : State) : Shallow c.limit.depth 0 (body c s).1 := by
  fun_induction body c s with
  | case1 s hends => exact ListFree.nil.shallow
  | case2 s hends hname comma later ih =>
    exact (shallow_field s).append ((listFree_accept _ .comma).shallow.append ih)
  | case3 s hends hname reported later ih =>
    exact (listFree_wrap reported .error 1).shallow.append ih

/-- No list of a block is nested too deep. -/
theorem shallow_block (s : State) : Shallow c.limit.depth 0 (block c s).1 := by
  have hopen := listFree_expect (c := c) s .lbrace
  unfold block
  split
  · exact (listFree_wrap _ .error _).shallow
  · rename_i brace next heq
    rw [heq] at hopen
    exact hopen.shallow.append ((shallow_body next).append (listFree_expect _ .rbrace).shallow)

/-- No list of a declaration is nested too deep. -/
theorem shallow_declaration (s : State) : Shallow c.limit.depth 0 [(declaration c s).1] := by
  unfold declaration
  split
  · exact (listFree_wrap _ .error _).shallow
  · exact .node nofun ((listFree_leaves s 1).shallow.append
      ((listFree_declarationName _).shallow.append (shallow_block _)))

/-- No list of the declarations is nested too deep. -/
theorem shallow_declarations (s : State) : Shallow c.limit.depth 0 (declarations c s).1 := by
  fun_induction declarations c s with
  | case1 s heof => exact ListFree.nil.shallow
  | case2 s heof next later ih =>
    have hnext : Shallow c.limit.depth 0 [next.1] := by
      simp only [next]
      split
      · exact shallow_declaration s
      · exact (listFree_wrap _ .error _).shallow
    exact hnext.append ih

/-- No list of a document lies within as many others as the limit says. -/
theorem shallow_sourceFile (s : State) : Shallow c.limit.depth 0 [(sourceFile c s).1] :=
  .node nofun (shallow_declarations s)

end Parse

end WorldDoc
