/-!
# Conversion of nested lists

A structure is nested if each of its members is either single or a list of further members. Such a
structure is converted from the inside out: single members by a function that may fail, lists once
all that they hold is converted. The conversion keeps the lists that it is inside of in a stack of
its own, so no depth of nesting is too much for it; members are met from left to right, and the
first failure ends it.
-/

namespace WorldDoc

/-- What some members weigh together. -/
def Nesting.total {α : Type} (weight : α → Nat) : List α → Nat
  | [] => 0
  | a :: as => weight a + total weight as

/-- How the members of a type are nested: the members of a list, and a weight that shows that
nesting comes to an end. -/
structure Nesting (α : Type) where
  items? : α → Option (List α)
  weight : α → Nat
  weight_pos (a : α) : 0 < weight a
  weight_items {a : α} {items : List α} (h : items? a = some items) :
    Nesting.total weight items + 2 ≤ weight a

namespace Nesting

variable {α β ε : Type}

@[simp] theorem total_nil (weight : α → Nat) : total weight [] = 0 := rfl

/-- The total of a row is that of its first member and of the others. -/
@[simp] theorem total_cons (weight : α → Nat) (a : α) (as : List α) :
    total weight (a :: as) = weight a + total weight as := rfl

/-- A list under conversion: the members that still wait, and those converted, the latest first. -/
structure Frame (α β : Type) where
  waiting : List α
  done : List β

/-- What is left to do in a frame. -/
def work (n : Nesting α) (f : Frame α β) : Nat := total n.weight f.waiting + 1

/-- Converts what waits in a frame and then, as its list is complete, in the frames around it. -/
def run (n : Nesting α) (single : α → Except ε β) (list : List β → β) :
    Frame α β → List (Frame α β) → Except ε β
  | ⟨[], done⟩, [] => .ok (list done.reverse)
  | ⟨[], done⟩, outer :: rest =>
    run n single list ⟨outer.waiting, list done.reverse :: outer.done⟩ rest
  | ⟨a :: waiting, done⟩, rest =>
    match _h : n.items? a with
    | some items => run n single list ⟨items, []⟩ (⟨waiting, done⟩ :: rest)
    | none =>
      match single a with
      | .ok b => run n single list ⟨waiting, b :: done⟩ rest
      | .error e => .error e
  termination_by frame rest => n.work frame + total n.work rest
  decreasing_by
    · simp [work]
    · have := n.weight_items _h
      simp [work]
      omega
    · have := n.weight_pos a
      simp [work]
      omega

/-- Converts a member with everything in it. -/
def convert (n : Nesting α) (single : α → Except ε β) (list : List β → β) (a : α) : Except ε β :=
  match n.items? a with
  | some items => run n single list ⟨items, []⟩ []
  | none => single a

end Nesting

end WorldDoc
