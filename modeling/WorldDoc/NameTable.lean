/-!
# Tables by name

A `NameTable` maps names to values and keeps the order in which names first came. No name occurs
twice; the proof of that is part of the type. What happens when a name comes again is a matter of
the `DuplicatePolicy`: the later value takes the earlier one's place, or it is rejected.
-/

namespace WorldDoc

/-- A mapping of names to values in order of first insertion. -/
@[ext] structure NameTable (α : Type) where
  entries : List (String × α)
  nodup : (entries.map Prod.fst).Nodup

/-- What happens when a name is inserted a second time. -/
inductive DuplicatePolicy where
  | overwrite
  | reject
  deriving DecidableEq, Repr

namespace NameTable

variable {α : Type}

/-- The table without entries. -/
def empty : NameTable α := ⟨[], List.nodup_nil⟩

instance : Inhabited (NameTable α) := ⟨empty⟩

/-- The names of a table in order. -/
def names (t : NameTable α) : List String := t.entries.map Prod.fst

/-- The values of a table in order. -/
def values (t : NameTable α) : List α := t.entries.map Prod.snd

/-- The number of entries. -/
def size (t : NameTable α) : Nat := t.entries.length

/-- The value under a name. -/
def get? (t : NameTable α) (name : String) : Option α := t.entries.lookup name

/-- Whether a name has an entry. -/
def contains (t : NameTable α) (name : String) : Bool := t.entries.any fun e => e.1 == name

/-- The entries with one value put under a name: in the place of the value there, or at the end. -/
def insertEntry (name : String) (value : α) : List (String × α) → List (String × α)
  | [] => [(name, value)]
  | e :: later => if e.1 = name then (name, value) :: later else e :: insertEntry name value later

/-- The names after an insertion are the new one and those from before. -/
theorem mem_names_insertEntry {name other : String} {value : α} {entries : List (String × α)} :
    other ∈ (insertEntry name value entries).map Prod.fst ↔
      other = name ∨ other ∈ entries.map Prod.fst := by
  induction entries with
  | nil => simp [insertEntry]
  | cons e later ih =>
    simp only [insertEntry]
    split
    · rename_i h
      subst h
      simp
    · rw [List.map_cons, List.mem_cons, ih, List.map_cons, List.mem_cons]
      exact or_left_comm

/-- An insertion does not make a name come twice. -/
theorem nodup_insertEntry {name : String} {value : α} {entries : List (String × α)}
    (h : (entries.map Prod.fst).Nodup) :
    ((insertEntry name value entries).map Prod.fst).Nodup := by
  induction entries with
  | nil => simp [insertEntry]
  | cons e later ih =>
    simp only [List.map_cons, List.nodup_cons] at h
    simp only [insertEntry]
    split
    · rename_i he
      subst he
      simpa using h
    · rename_i he
      rw [List.map_cons, List.nodup_cons]
      refine ⟨fun hmem => ?_, ih h.2⟩
      rcases mem_names_insertEntry.1 hmem with h' | h'
      · exact he h'
      · exact h.1 h'

/-- The table with one value put under a name. -/
def insert (t : NameTable α) (name : String) (value : α) : NameTable α :=
  ⟨insertEntry name value t.entries, nodup_insertEntry t.nodup⟩

/-- A name is looked up in the first entry, and in the others if that has another name. -/
theorem lookup_cons_eq_ite (name : String) (e : String × α) (later : List (String × α)) :
    (e :: later).lookup name = if name = e.1 then some e.2 else later.lookup name := by
  rw [List.lookup_cons]
  by_cases h : name = e.1
  · simp [h]
  · simp [h, beq_false_of_ne h]

/-- After an insertion the new name has the new value, and all others have what they had. -/
theorem lookup_insertEntry (name other : String) (value : α) (entries : List (String × α)) :
    (insertEntry name value entries).lookup other =
      if other = name then some value else entries.lookup other := by
  induction entries with
  | nil => rw [insertEntry, lookup_cons_eq_ite]
  | cons e later ih =>
    rw [insertEntry, lookup_cons_eq_ite]
    by_cases he : e.1 = name
    · rw [if_pos he, lookup_cons_eq_ite, he]
      split <;> simp_all
    · rw [if_neg he, lookup_cons_eq_ite, ih]
      split <;> simp_all

/-- After an insertion the name has the new value, and every other name what it had. -/
theorem get?_insert (t : NameTable α) (name other : String) (value : α) :
    (t.insert name value).get? other = if other = name then some value else t.get? other :=
  lookup_insertEntry name other value t.entries

/-- A name has an entry exactly if a value is found under it. -/
theorem contains_eq_isSome_get? (t : NameTable α) (name : String) :
    t.contains name = (t.get? name).isSome := by
  simp only [contains, get?]
  induction t.entries with
  | nil => rfl
  | cons e later ih =>
    rw [lookup_cons_eq_ite, List.any_cons, ih]
    by_cases h : name = e.1
    · simp [h]
    · simp [h, beq_false_of_ne (Ne.symm h)]

/-- The table of some pairs: a name that comes again keeps its first place and its last value. -/
def ofList (pairs : List (String × α)) : NameTable α :=
  pairs.foldl (fun t p => t.insert p.1 p.2) empty

/-- What came of an insertion: the table, and whether a value that was there has been replaced. -/
structure Insertion (α : Type) where
  table : NameTable α
  replaced : Bool

/-- Inserts a value under a policy. There is no outcome if the policy rejects it. -/
def insertUnder (t : NameTable α) (policy : DuplicatePolicy) (name : String) (value : α) :
    Option (Insertion α) :=
  if t.contains name ∧ policy = .reject then none
  else some ⟨t.insert name value, t.contains name⟩

/-- Whether two tables have the same names with the same values, whatever their order. -/
def same (sameValue : α → α → Bool) (t u : NameTable α) : Bool :=
  t.size == u.size && t.entries.all fun e => (u.get? e.1).any (sameValue e.2)

end NameTable

namespace DuplicatePolicy

/-- The policy with a given word. -/
def ofWord? : String → Option DuplicatePolicy
  | "overwrite" => some .overwrite
  | "reject" => some .reject
  | _ => none

end DuplicatePolicy

end WorldDoc
