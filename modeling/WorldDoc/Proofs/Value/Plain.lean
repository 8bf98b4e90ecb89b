import WorldDoc.Proofs.Value.Nested
import WorldDoc.Value.Basic

/-!
# Plain data by recursion

The plain data of a value are made with the lists that are open kept in a stack. What comes of it is
the recursion over the value: a list becomes the list of the data of its members, each in its place,
and anything else the one datum that it holds (`Value.plain_recursive`).

The same is said of a loop that works on an output of its own. The output consists of lists that are
filled while they already stand in the list around them, so that no list is ever moved; a cursor
says which member of which list is next and which list of the output it goes to. The loop is written
without anything that would make it end, and what it leaves is read off by following the lists.

## Shape of the proof

Which list of the output gets which number depends on nothing but how many lists there are when a
value is reached. So the slot for a value and the lists that are made for it can be said by
recursion over the value (`Output.layOut`). The loop adds just these behind what is there
(`fill_members`), and from any output with these lists in their place the data of the value are read
(`mapM_read_layOutAll`).
-/

namespace WorldDoc.Value

/-! ## Recursion -/

/-- Converting nested values, with nothing that could fail, makes what the recursion makes. -/
theorem convert_plain (v : Value) :
    nesting.convert (ε := Empty) (fun a => .ok a.plainSingle) .list v = .ok v.plain := by
  rw [plain]
  cases nesting.convert (ε := Empty) (fun a => .ok a.plainSingle) .list v with
  | error e => exact e.elim
  | ok data => rfl

/-- A value that is no list is a single datum. -/
theorem plain_single {v : Value} (h : v.items? = none) : v.plain = v.plainSingle := by
  have hconvert := Nesting.convert_single (n := nesting) (ε := Empty)
    (fun a => .ok a.plainSingle) PlainData.list h
  rw [convert_plain] at hconvert
  exact Except.ok.inj hconvert

/-- The data of a list are those of its members in order. -/
theorem plain_list (items : List Value) : (list items).plain = .list (items.map plain) := by
  have hconvert := Nesting.convert_list (n := nesting) (ε := Empty)
    (fun a => .ok a.plainSingle) PlainData.list (rfl : nesting.items? (list items) = some items)
  have hmembers : items.mapM (nesting.convert (ε := Empty) (fun a => .ok a.plainSingle) .list) =
      .ok (items.map plain) := by
    rw [funext convert_plain]
    exact List.mapM_pure
  rw [convert_plain, hmembers] at hconvert
  exact Except.ok.inj hconvert

/-! ## The loop -/

/-- What a list of the output has at one place: a datum, or another list by its number. -/
inductive Slot where
  | single (datum : PlainData)
  | list (number : Nat)

/-- The lists of the output by their numbers. -/
abbrev Output := List (List Slot)

/-- A list of values that is being converted: which of its members is next, and the number of the
list that they go to. -/
structure Cursor where
  items : List Value
  index : Nat
  target : Nat

/-- The cursor behind the member that is next. -/
def Cursor.next (cursor : Cursor) : Cursor := { cursor with index := cursor.index + 1 }

namespace Output

/-- Puts slots at the end of a list. -/
def extend (output : Output) (target : Nat) (slots : List Slot) : Output :=
  output.modify target (· ++ slots)

/-- Puts a new list, with nothing in it yet, at the end of a list. -/
def extendByList (output : Output) (target : Nat) : Output :=
  output.extend target [.list output.length] ++ [[]]

/-- Goes on with the innermost of the lists that are being converted. -/
def fill (output : Output) : List Cursor → Option Output
  | [] => some output
  | cursor :: outer =>
    match cursor.items[cursor.index]? with
    | none => output |>.fill outer
    | some (.list nested) =>
      output.extendByList cursor.target |>.fill (⟨nested, 0, output.length⟩ :: cursor.next :: outer)
    | some v => output.extend cursor.target [.single v.plainSingle] |>.fill (cursor.next :: outer)
partial_fixpoint

/-- What a slot holds, with every list in it followed. -/
def read (output : Output) : Slot → Option PlainData
  | .single datum => some datum
  | .list n => do
    let slots ← output[n]?
    let data ← slots.mapM (output |>.read)
    return .list data
partial_fixpoint

end Output

/-- The plain data of a value, made by the loop. -/
def plainByLoop : Value → Option PlainData
  | list items => do
    let output ← Output.fill [[]] [⟨items, 0, 0⟩]
    output.read (.list 0)
  | v => some v.plainSingle

/-! ## What the loop leaves -/

namespace Output

mutual

/-- The slot for a value, and the lists that are made for it when `next` is the first free
number. -/
def layOut (next : Nat) : Value → Slot × Output
  | list items => (.list next, (layOutAll (next + 1) items).1 :: (layOutAll (next + 1) items).2)
  | string text => (.single (.text text), [])
  | number value => (.single (.number value), [])
  | boolean value => (.single (.truth value), [])
  | identifier name => (.single (.text name), [])

/-- The slots for some values, one behind the other, and the lists that are made for them. -/
def layOutAll (next : Nat) : List Value → List Slot × Output
  | [] => ([], [])
  | v :: later =>
    let first := layOut next v
    let others := layOutAll (next + first.2.length) later
    (first.1 :: others.1, first.2 ++ others.2)

end

section Extend

variable (output : Output) {target : Nat} (slots : List Slot)

/-- Lists are extended in place. -/
@[simp] theorem length_extend (target : Nat) : (output.extend target slots).length = output.length :=
  List.length_modify ..

/-- A new list takes the next number. -/
@[simp] theorem length_extendByList (target : Nat) :
    (output.extendByList target).length = output.length + 1 := by
  simp [extendByList]

/-- Extending by nothing changes nothing. -/
theorem extend_nil (target : Nat) : output.extend target [] = output := by
  simp only [extend, List.append_nil]
  exact List.modify_id target output

/-- Extending twice is extending once by all. -/
theorem extend_extend (target : Nat) (others : List Slot) :
    (output.extend target slots).extend target others = output.extend target (slots ++ others) := by
  simp only [extend, List.modify_modify_eq, Function.comp_def, List.append_assoc]

/-- What is behind a list that is extended stays as it is. -/
theorem extend_append (htarget : target < output.length) (lists : Output) :
    (output ++ lists).extend target slots = output.extend target slots ++ lists := by
  induction output generalizing target with
  | nil => exact absurd htarget (Nat.not_lt_zero target)
  | cons first output ih =>
    cases target with
    | zero => rfl
    | succ target => exact congrArg (first :: ·) (ih (Nat.lt_of_succ_lt_succ htarget))

/-- The list that was put last is extended alone. -/
theorem extend_last (last : List Slot) :
    (output ++ [last]).extend output.length slots = output ++ [last ++ slots] := by
  induction output with
  | nil => rfl
  | cons first output ih => exact congrArg (first :: ·) ih

end Extend

/-! ### Steps of the loop -/

section Fill

variable {output : Output} {cursor : Cursor} {outer : List Cursor} {nested : List Value} {v : Value}

/-- When no list is left the output is complete. -/
theorem fill_nil (output : Output) : output.fill [] = some output := by
  rw [fill]

/-- At the end of its list a cursor is done with. -/
theorem fill_end (h : cursor.items[cursor.index]? = none) :
    output.fill (cursor :: outer) = output.fill outer := by
  rw [fill]
  simp only [h]

/-- A list within a list gets a cursor of its own, and the outer one goes on behind it later. -/
theorem fill_list (h : cursor.items[cursor.index]? = some (.list nested)) :
    output.fill (cursor :: outer) =
      (output.extendByList cursor.target).fill
        (⟨nested, 0, output.length⟩ :: cursor.next :: outer) := by
  rw [fill]
  simp only [h]

/-- A single value is put in its place, and the cursor goes on. -/
theorem fill_single (h : cursor.items[cursor.index]? = some v) (hsingle : v.items? = none) :
    output.fill (cursor :: outer) =
      (output.extend cursor.target [.single v.plainSingle]).fill (cursor.next :: outer) := by
  rw [fill]
  simp only [h]
  cases v with
  | list nested => contradiction
  | _ => rfl

end Fill

/-! ### Whole lists -/

mutual

/-- The loop lays out the member that is next and goes on behind it. -/
theorem fill_member (output : Output) (cursor : Cursor) (outer : List Cursor) : (v : Value) →
    cursor.items[cursor.index]? = some v →
    output.fill (cursor :: outer) =
      (output.extend cursor.target [(layOut output.length v).1] ++
        (layOut output.length v).2 : Output).fill (cursor.next :: outer)
  | .list nested, h => by
      -- the nested list is the last one of the output when the loop enters it
      have hinner := fill_members (output.extendByList cursor.target) ⟨nested, 0, output.length⟩
        (cursor.next :: outer) (by simp) nested List.drop_zero
      have hlast := extend_last (output.extend cursor.target [.list output.length])
        (layOutAll (output.length + 1) nested).1 []
      rw [length_extend, List.nil_append] at hlast
      rw [fill_list h, hinner, length_extendByList, extendByList, hlast, List.append_assoc]
      rfl
  | .string text, h => by rw [fill_single h rfl, layOut, List.append_nil]; rfl
  | .number value, h => by rw [fill_single h rfl, layOut, List.append_nil]; rfl
  | .boolean value, h => by rw [fill_single h rfl, layOut, List.append_nil]; rfl
  | .identifier name, h => by rw [fill_single h rfl, layOut, List.append_nil]; rfl

/-- The loop lays out the members that are left and goes on with the list around them. -/
theorem fill_members (output : Output) (cursor : Cursor) (outer : List Cursor)
    (htarget : cursor.target < output.length) : (later : List Value) →
    cursor.items.drop cursor.index = later →
    output.fill (cursor :: outer) =
      (output.extend cursor.target (layOutAll output.length later).1 ++
        (layOutAll output.length later).2 : Output).fill outer
  | [], h => by
      have hend : cursor.items[cursor.index]? = none :=
        List.getElem?_eq_none (List.drop_eq_nil_iff.mp h)
      rw [fill_end hend, layOutAll, extend_nil, List.append_nil]
  | v :: later, h => by
      have hnext : cursor.items[cursor.index]? = some v := by
        rw [← List.head?_drop, h, List.head?_cons]
      have hlater : cursor.next.items.drop cursor.next.index = later := by
        rw [Cursor.next, ← List.tail_drop, h, List.tail_cons]
      have hplace : cursor.next.target <
          (output.extend cursor.target [(layOut output.length v).1]).length := by
        rw [length_extend]
        exact htarget
      have hwithin := Nat.lt_add_right (layOut output.length v).2.length hplace
      rw [← List.length_append] at hwithin
      rw [fill_member output cursor outer v hnext, fill_members _ _ outer hwithin later hlater,
        extend_append _ _ hplace, Cursor.next, extend_extend, List.length_append, length_extend,
        List.append_assoc]
      rfl

end

/-! ### Reading it -/

/-- A single datum is read as itself. -/
theorem read_single (output : Output) (datum : PlainData) :
    output.read (.single datum) = some datum := by
  rw [read]

/-- A list is read by reading its slots. -/
theorem read_list {output : Output} {n : Nat} {slots : List Slot} {data : List PlainData}
    (hslots : output[n]? = some slots) (hdata : slots.mapM output.read = some data) :
    output.read (.list n) = some (.list data) := by
  rw [read, hslots]
  show slots.mapM output.read >>= _ = _
  rw [hdata]
  rfl

mutual

/-- With the lists for a value in their place its slot holds the data of the value. -/
theorem read_layOut (before after : Output) : (v : Value) →
    (before ++ (layOut before.length v).2 ++ after : Output).read (layOut before.length v).1 =
      some v.plain
  | .list items => by
      have hmembers := mapM_read_layOutAll (before ++ [(layOutAll (before.length + 1) items).1])
        after items
      rw [List.length_append, List.length_singleton, List.append_assoc before,
        List.singleton_append] at hmembers
      have hslots : (before ++ (layOut before.length (.list items)).2 ++ after)[before.length]? =
          some (layOutAll (before.length + 1) items).1 := by
        rw [List.append_assoc, List.getElem?_append_right (Nat.le_refl _), Nat.sub_self]
        rfl
      rw [plain_list]
      exact read_list hslots hmembers
  | .string text => by rw [layOut, read_single, plain_single rfl]; rfl
  | .number value => by rw [layOut, read_single, plain_single rfl]; rfl
  | .boolean value => by rw [layOut, read_single, plain_single rfl]; rfl
  | .identifier name => by rw [layOut, read_single, plain_single rfl]; rfl

/-- With the lists for some values in their places the slots hold the data of the values. -/
theorem mapM_read_layOutAll (before after : Output) : (items : List Value) →
    (layOutAll before.length items).1.mapM
        (before ++ (layOutAll before.length items).2 ++ after : Output).read =
      some (items.map plain)
  | [] => rfl
  | v :: later => by
      have hfirst := read_layOut before ((layOutAll
        (before.length + (layOut before.length v).2.length) later).2 ++ after) v
      have hlater := mapM_read_layOutAll (before ++ (layOut before.length v).2) after later
      rw [List.length_append] at hlater
      rw [← List.append_assoc, List.append_assoc before] at hfirst
      rw [List.append_assoc before] at hlater
      show (_ :: _).mapM (Output.read (before ++ (_ ++ _) ++ after)) = _
      rw [List.mapM_cons, hfirst, hlater]
      rfl

end

end Output

/-! ## Main statement -/

/-- The loop ends, with what the recursion makes. -/
theorem plainByLoop_eq (v : Value) : plainByLoop v = some v.plain := by
  cases v with
  | list items =>
    have hfill := Output.fill_members [[]] ⟨items, 0, 0⟩ [] Nat.zero_lt_one items List.drop_zero
    have hmembers := Output.mapM_read_layOutAll [(Output.layOutAll 1 items).1] [] items
    rw [plainByLoop, hfill, Output.fill_nil, plain_list]
    rw [List.append_nil] at hmembers
    exact Output.read_list rfl hmembers
  | _ => exact congrArg some (plain_single rfl).symm

/-- Making the plain data of a value comes to an end however deeply lists are nested in it, with the
text of a string, the name of an identifier, a number or a truth value as it is, and for a list the
list of the data of its members in their order. -/
theorem plain_recursive :
    (∀ v, plainByLoop v = some v.plain) ∧
    (∀ text, (string text).plain = .text text) ∧
    (∀ name, (identifier name).plain = .text name) ∧
    (∀ value, (number value).plain = .number value) ∧
    (∀ value, (boolean value).plain = .truth value) ∧
    ∀ items, (list items).plain = .list (items.map plain) :=
  ⟨plainByLoop_eq, fun _ => plain_single rfl, fun _ => plain_single rfl, fun _ => plain_single rfl,
    fun _ => plain_single rfl, plain_list⟩

end WorldDoc.Value
