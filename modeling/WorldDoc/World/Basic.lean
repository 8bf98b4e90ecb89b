import WorldDoc.Citizen.Basic

/-!
# Worlds

A world holds the citizens of one document: the Origin, if there is one, and eight collections by
name. A world may be put together freely; that every citizen is filed under its own kind and name is
a property of worlds that are assembled.
-/

namespace WorldDoc

/-- The citizens of a document by kind and name. -/
@[ext] structure World where
  origin : Option Citizen := none
  timelines : NameTable Citizen := .empty
  events : NameTable Citizen := .empty
  coreEvents : NameTable Citizen := .empty
  niches : NameTable Citizen := .empty
  eras : NameTable Citizen := .empty
  generators : NameTable Citizen := .empty
  memories : NameTable Citizen := .empty
  immunes : NameTable Citizen := .empty

namespace World

/-- The world without citizens. -/
def empty : World := {}

/-- A collection of a world. -/
def collection (w : World) : Collection → NameTable Citizen
  | .timelines => w.timelines
  | .events => w.events
  | .coreEvents => w.coreEvents
  | .niches => w.niches
  | .eras => w.eras
  | .generators => w.generators
  | .memories => w.memories
  | .immunes => w.immunes

/-- The world with one collection exchanged. -/
def setCollection (w : World) (table : NameTable Citizen) : Collection → World
  | .timelines => { w with timelines := table }
  | .events => { w with events := table }
  | .coreEvents => { w with coreEvents := table }
  | .niches => { w with niches := table }
  | .eras => { w with eras := table }
  | .generators => { w with generators := table }
  | .memories => { w with memories := table }
  | .immunes => { w with immunes := table }

/-- A collection that is replaced is the new one. -/
@[simp] theorem collection_setCollection_self (w : World) (table : NameTable Citizen)
    (c : Collection) : (w.setCollection table c).collection c = table := by
  cases c <;> rfl

/-- The other collections stay as they are when one is replaced. -/
theorem collection_setCollection_of_ne (w : World) (table : NameTable Citizen) {c d : Collection}
    (h : d ≠ c) : (w.setCollection table c).collection d = w.collection d := by
  cases c <;> cases d <;> first | rfl | exact absurd rfl h

/-- The Origin stays as it is when a collection is replaced. -/
@[simp] theorem origin_setCollection (w : World) (table : NameTable Citizen) (c : Collection) :
    (w.setCollection table c).origin = w.origin := by
  cases c <;> rfl

/-- The citizens of a kind by name. The Origin is filed under its name too. -/
def table (w : World) : CitizenKind → NameTable Citizen
  | .origin => match w.origin with
    | none => .empty
    | some citizen => NameTable.empty.insert citizen.name citizen
  | .member c => w.collection c

/-- The citizen of a kind and name. -/
def get? (w : World) (kind : CitizenKind) (name : String) : Option Citizen :=
  (w.table kind).get? name

/-- All citizens: the Origin, then each collection in its order. -/
def citizens (w : World) : List Citizen :=
  w.origin.toList ++ Collection.all.flatMap fun c => (w.collection c).values

/-- How many citizens there are of each kind. -/
def counts (w : World) : List (CitizenKind × Nat) :=
  CitizenKind.all.map fun k => (k, (w.table k).size)

/-- How many citizens there are. -/
def size (w : World) : Nat := w.counts.foldl (fun n count => n + count.2) 0

/-- Equality of worlds; the order within collections does not matter. -/
def same (v w : World) : Bool :=
  (match v.origin, w.origin with
    | none, none => true
    | some a, some b => a.same b
    | _, _ => false) &&
  Collection.all.all fun c => (v.collection c).same Citizen.same (w.collection c)

end World

end WorldDoc
