import WorldDoc.Proofs.Value.Nested
import WorldDoc.Value.Outline

/-!
# Values are read by recursion

The value of a node is read with the lists that are open kept in a stack. What comes of it is the
recursion over the tree (`Outline.value?`): a list node is the list of its children's values, any
other node the value that its text writes. Where some node has no value the whole has none, and the
failure is that of the first such node from the left (`Value.ofOutline_recursive`).

## Shape of the proof

That the stack of open lists does no more than recursion would is known of nested lists in general.
Which node fails is followed along the same recursion: `Outline.singles` are the nodes that are met
one after the other, and `Meets` says of an outcome that it is the value or the failure of the first
node among them without a value. An empty stack is reached whatever the tree looks like; written as
a loop that nothing says to end (`Nesting.loop`), the conversion ends with the same outcome.
-/

namespace WorldDoc

/-! ## The loop over the open lists -/

namespace Nesting

variable {α β ε : Type}

section

variable (items? : α → Option (List α)) (single : α → Except ε β) (list : List β → β)

/-- Goes on with the innermost of the lists that are open. Nothing says beforehand that this comes
to an end. -/
def loop : Frame α β → List (Frame α β) → Option (Except ε β)
  | ⟨[], done⟩, [] => some (.ok (list done.reverse))
  | ⟨[], done⟩, outer :: rest => by
    -- called with `apply`, so that the term does not remember at which line of this file it stands
    apply loop; exact ⟨outer.waiting, list done.reverse :: outer.done⟩; exact rest
  | ⟨a :: waiting, done⟩, rest =>
    match items? a with
    | some items => by apply loop; exact ⟨items, []⟩; exact ⟨waiting, done⟩ :: rest
    | none =>
      match single a with
      | .ok b => by apply loop; exact ⟨waiting, b :: done⟩; exact rest
      | .error e => some (.error e)
partial_fixpoint

end

/-- The loop comes to an end with what the run computes. -/
theorem loop_eq (n : Nesting α) (single : α → Except ε β) (list : List β → β)
    (frame : Frame α β) (rest : List (Frame α β)) :
    loop n.items? single list frame rest = some (run n single list frame rest) := by
  fun_induction run n single list frame rest with
  | case1 done => rw [loop]
  | case2 done outer rest ih =>
    rw [List.unattach_reverse, List.unattach_attach] at ih
    rw [loop, ih]
  | case3 a waiting done rest items h ih => rw [loop, h]; exact ih
  | case4 a waiting done rest h b hb ih => rw [loop, h, hb]; exact ih
  | case5 a waiting done rest h e he => rw [loop, h, he]

end Nesting

namespace Outline

/-! ## Recursion over the tree -/

mutual

/-- The value of a node: of a list node the values of its children, of any other the value that its
text writes. -/
def value? : Outline → Option Value
  | node (.node (.value .list)) _ _ children => (values? children).map .list
  | node (.node (.value .string)) text _ _ =>
    (Literal.string? text.toList).map fun content => .string (String.ofList content)
  | node (.node (.value .number)) text _ _ => (Literal.number? text.toList).map .number
  | node (.node (.value .boolean)) text _ _ => (Literal.boolean? text.toList).map .boolean
  | node (.node (.value .identifier)) text _ _ => some (.identifier text)
  | _ => none

/-- The values of some nodes, if all of them have one. -/
def values? : List Outline → Option (List Value)
  | [] => some []
  | o :: later => do return (← o.value?) :: (← values? later)

end

mutual

/-- The nodes other than lists that lie in a node with nothing but lists between, from the left. A
node that is no list itself is the only one. -/
def singles : Outline → List Outline
  | node kind text range children =>
    if kind = .node (.value .list) then singlesOf children else [node kind text range children]

/-- Those nodes for some neighbours. -/
def singlesOf : List Outline → List Outline
  | [] => []
  | o :: later => o.singles ++ singlesOf later

end

/-- `Reaches o n`: the node `n` is the node `o` or lies in it with nothing but lists between. -/
inductive Reaches : Outline → Outline → Prop where
  | self (o : Outline) : Reaches o o
  | child {o child n : Outline} (hlist : o.kind = .node (.value .list))
    (hchild : child ∈ o.children) (h : Reaches child n) : Reaches o n

/-- In a list node lie the nodes that lie in its children. -/
theorem singles_of_list {o : Outline} (h : o.kind = .node (.value .list)) :
    o.singles = singlesOf o.children := by
  obtain ⟨kind, text, range, children⟩ := o
  exact if_pos h

/-- A node that is no list is the only one that lies in it. -/
theorem singles_of_ne_list {o : Outline} (h : o.kind ≠ .node (.value .list)) : o.singles = [o] := by
  obtain ⟨kind, text, range, children⟩ := o
  exact if_neg h

mutual

/-- The nodes that lie in a node can be reached, and none of them is a list. -/
theorem reaches_of_mem_singles {n : Outline} : (o : Outline) → n ∈ o.singles →
    o.Reaches n ∧ n.kind ≠ .node (.value .list)
  | node kind text range children, h => by
      rw [singles] at h
      split at h
      · rename_i hlist
        obtain ⟨child, hchild, hreaches, hkind⟩ := exists_of_mem_singlesOf children h
        exact ⟨.child hlist hchild hreaches, hkind⟩
      · rename_i hlist
        obtain rfl := List.mem_singleton.mp h
        exact ⟨.self _, hlist⟩

/-- Each node that lies in some neighbours can be reached from one of them. -/
theorem exists_of_mem_singlesOf {n : Outline} : (os : List Outline) → n ∈ singlesOf os →
    ∃ o ∈ os, o.Reaches n ∧ n.kind ≠ .node (.value .list)
  | [], h => absurd h List.not_mem_nil
  | o :: later, h => by
      rcases List.mem_append.mp h with h | h
      · exact ⟨o, List.mem_cons_self, reaches_of_mem_singles o h⟩
      · obtain ⟨other, hmem, hother⟩ := exists_of_mem_singlesOf later h
        exact ⟨other, List.mem_cons_of_mem _ hmem, hother⟩

end

/-- What lies in one neighbour lies in all of them together. -/
theorem mem_singlesOf {n o : Outline} {os : List Outline} (ho : o ∈ os) (h : n ∈ o.singles) :
    n ∈ singlesOf os := by
  induction os with
  | nil => exact absurd ho List.not_mem_nil
  | cons first later ih =>
    rcases List.mem_cons.mp ho with rfl | ho
    · exact List.mem_append_left _ h
    · exact List.mem_append_right _ (ih ho)

/-- The nodes that are read one by one are those that are reached through lists and are none. -/
theorem mem_singles_iff {o n : Outline} :
    n ∈ o.singles ↔ o.Reaches n ∧ n.kind ≠ .node (.value .list) := by
  refine ⟨reaches_of_mem_singles o, ?_⟩
  rintro ⟨hreaches, hkind⟩
  induction hreaches with
  | self o => exact singles_of_ne_list hkind ▸ List.mem_singleton_self o
  | child hlist hchild h ih => exact singles_of_list hlist ▸ mem_singlesOf hchild (ih hkind)

/-- A node that is no list is read as a single value. -/
theorem value?_of_ne_list {o : Outline} (h : o.kind ≠ .node (.value .list)) :
    o.value? = Value.ofScalar? o := by
  obtain ⟨kind, text, range, children⟩ := o
  cases kind with
  | token kind => rfl
  | node kind =>
    cases kind with
    | value kind =>
      cases kind with
      | list => exact absurd rfl h
      | _ => rfl
    | _ => rfl

end Outline

/-! ## Values and failures -/

namespace Value

/-- The outcome is what was meant to come, or the failure of the first node that has no value. -/
inductive Meets {α : Type} : Except Failure α → Option α → Option Outline → Prop where
  | value (a : α) : Meets (.ok a) (some a) none
  | failure (n : Outline) : Meets (.error (scalarFailure n)) none (some n)

mutual

/-- Reading a node, recursively, comes to its value or to the failure of the first node without
one. -/
theorem meets_ofOutline : (o : Outline) →
    Meets (ofOutline o) o.value? (o.singles.find? (·.value?.isNone))
  | .node kind text range children => by
      by_cases hkind : kind = .node (.value .list)
      · subst hkind
        have hrun : ofOutline (.node (.node (.value .list)) text range children) =
            children.mapM ofOutline >>= fun vs => .ok (.list vs) :=
          Nesting.convert_list _ _ rfl
        have hsingles : (Outline.node (.node (.value .list)) text range children).singles =
            Outline.singlesOf children := Outline.singles_of_list rfl
        have hmeets := meets_mapM children
        rw [hrun, hsingles, Outline.value?]
        generalize children.mapM ofOutline = outcome at hmeets ⊢
        generalize Outline.values? children = values at hmeets ⊢
        generalize (Outline.singlesOf children).find? (·.value?.isNone) = fault at hmeets ⊢
        cases hmeets with
        | value vs => exact .value (Value.list vs)
        | failure n => exact .failure n
      · have hitems : Outline.nesting.items? (.node kind text range children) = none := if_neg hkind
        have hlist : (Outline.node kind text range children).kind ≠ .node (.value .list) := hkind
        generalize Outline.node kind text range children = o at hlist hitems
        rw [ofOutline, Nesting.convert_single _ _ hitems, Outline.singles_of_ne_list hlist,
          List.find?_singleton, Outline.value?_of_ne_list hlist, ofScalar]
        cases ofScalar? o with
        | none => exact .failure _
        | some v => exact .value v

/-- Reading neighbours from the left comes to their values or to the first failure. -/
theorem meets_mapM : (os : List Outline) →
    Meets (os.mapM ofOutline) (Outline.values? os)
      ((Outline.singlesOf os).find? (·.value?.isNone))
  | [] => .value []
  | o :: later => by
      have hfirst := meets_ofOutline o
      have hlater := meets_mapM later
      rw [List.mapM_cons, Outline.values?, Outline.singlesOf, List.find?_append]
      generalize ofOutline o = outcome at hfirst ⊢
      generalize o.value? = value at hfirst ⊢
      generalize o.singles.find? (·.value?.isNone) = fault at hfirst ⊢
      cases hfirst with
      | failure n => exact .failure n
      | value v =>
        generalize later.mapM ofOutline = outcomes at hlater ⊢
        generalize Outline.values? later = values at hlater ⊢
        generalize (Outline.singlesOf later).find? (·.value?.isNone) = fault at hlater ⊢
        cases hlater with
        | failure n => exact .failure n
        | value vs => exact .value (v :: vs)

end

/-- The value of a node, read by the loop. -/
def ofOutlineByLoop (o : Outline) : Option (Except Failure Value) :=
  if o.kind = .node (.value .list) then
    Nesting.loop Outline.items? ofScalar .list ⟨o.children, []⟩ []
  else
    some (ofScalar o)

/-- The loop ends, with what the recursion comes to. -/
theorem ofOutlineByLoop_eq (o : Outline) : ofOutlineByLoop o = some (ofOutline o) := by
  by_cases hlist : o.kind = .node (.value .list)
  · have hitems : Outline.nesting.items? o = some o.children := if_pos hlist
    rw [ofOutlineByLoop, if_pos hlist, ofOutline, Nesting.convert, hitems]
    exact Nesting.loop_eq Outline.nesting ofScalar .list _ _
  · have hitems : Outline.nesting.items? o = none := if_neg hlist
    rw [ofOutlineByLoop, if_neg hlist, ofOutline, Nesting.convert_single _ _ hitems]

/-- Reading the value of a node comes to an end whatever lies in it, with the value that recursion
over the tree gives. If there is none, the failure names the kind, the text and the range of the
first node from the left that has no value; and that is so exactly if some node that is no list and
that is reached through lists only has none. -/
theorem ofOutline_recursive (o : Outline) :
    ofOutlineByLoop o = some (ofOutline o) ∧
      (∀ v, ofOutline o = .ok v ↔ o.value? = some v) ∧
      (∀ f, ofOutline o = .error f ↔ ∃ n, o.singles.find? (·.value?.isNone) = some n ∧
        f = .valueType n.kind.label n.text n.range) ∧
      ((∃ f, ofOutline o = .error f) ↔
        ∃ n, o.Reaches n ∧ n.kind ≠ .node (.value .list) ∧ n.value? = none) := by
  have hmeets := meets_ofOutline o
  have hreached : (∃ n, o.Reaches n ∧ n.kind ≠ .node (.value .list) ∧ n.value? = none) ↔
      (o.singles.find? (·.value?.isNone)).isSome = true := by
    rw [List.find?_isSome]
    constructor
    · rintro ⟨n, hreaches, hkind, hnone⟩
      exact ⟨n, Outline.mem_singles_iff.mpr ⟨hreaches, hkind⟩, by rw [hnone]; rfl⟩
    · rintro ⟨n, hn, hnone⟩
      obtain ⟨hreaches, hkind⟩ := Outline.mem_singles_iff.mp hn
      exact ⟨n, hreaches, hkind, Option.isNone_iff_eq_none.mp hnone⟩
  rw [hreached]
  refine ⟨ofOutlineByLoop_eq o, ?_⟩
  generalize ofOutline o = outcome at hmeets ⊢
  generalize o.value? = value at hmeets ⊢
  generalize o.singles.find? (·.value?.isNone) = fault at hmeets ⊢
  cases hmeets with
  | value v => simp
  | failure n => simp [scalarFailure, eq_comm]

end Value

end WorldDoc
