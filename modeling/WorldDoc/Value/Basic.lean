import WorldDoc.Number.Binary64
import WorldDoc.Syntax.Kind
import WorldDoc.Value.Nested

/-!
# Values

What a field holds: a string, a number, a truth value, a name, or a list of values. Names are kept
as they are written; what they refer to is a matter of the rules of a world. `PlainData` is the same
without the difference between a name and a string.
-/

namespace WorldDoc

/-- The value of a field. -/
inductive Value where
  | string (text : String)
  | number (value : Binary64)
  | boolean (value : Bool)
  | identifier (name : String)
  | list (items : List Value)
  deriving Repr

/-- Plain data: texts, numbers, truth values and lists. -/
inductive PlainData where
  | text (value : String)
  | number (value : Binary64)
  | truth (value : Bool)
  | list (items : List PlainData)
  deriving Repr

namespace Value

/-- The kind of a value. -/
def kind : Value → ValueKind
  | string _ => .string
  | number _ => .number
  | boolean _ => .boolean
  | identifier _ => .identifier
  | list _ => .list

/-- The members of a list. -/
def items? : Value → Option (List Value)
  | list items => some items
  | _ => none

mutual

/-- Equality of values: of the same kind and with equal contents, where numbers are equal as numbers
are. -/
def same : Value → Value → Bool
  | string a, string b => a == b
  | number a, number b => a.same b
  | boolean a, boolean b => a == b
  | identifier a, identifier b => a == b
  | list a, list b => sameAll a b
  | _, _ => false

/-- Equality of lists of values, member by member. -/
def sameAll : List Value → List Value → Bool
  | [], [] => true
  | a :: as, b :: bs => same a b && sameAll as bs
  | _, _ => false

end

mutual

/-- A measure of a value that exceeds that of all its members together. -/
def weight : Value → Nat
  | list items => weightAll items + 2
  | _ => 1

/-- The measures of some values together. -/
def weightAll : List Value → Nat
  | [] => 0
  | v :: vs => v.weight + weightAll vs

end

/-- The weight of a row of values is the sum of their weights. -/
theorem weightAll_eq_total (vs : List Value) : weightAll vs = Nesting.total weight vs := by
  induction vs with
  | nil => rfl
  | cons v vs ih => simp [weightAll, ih]

/-- How values are nested. -/
def nesting : Nesting Value where
  items? := items?
  weight := weight
  weight_pos v := by cases v <;> simp [weight]
  weight_items {v items} h := by
    cases v <;> simp_all [items?, weight, weightAll_eq_total]

/-- The plain datum of a single value. A list is not single and counts as empty here. -/
def plainSingle : Value → PlainData
  | string text => .text text
  | number value => .number value
  | boolean value => .truth value
  | identifier name => .text name
  | list _ => .list []

/-- The plain data of a value, to any depth. -/
def plain (v : Value) : PlainData :=
  match nesting.convert (ε := Empty) (fun a => .ok a.plainSingle) .list v with
  | .ok data => data

end Value

end WorldDoc
