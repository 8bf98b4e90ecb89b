import Mathlib.Data.List.Induction
import WorldDoc.NameTable

/-!
# Tables made from lists

A table that is made from a list of pairs has the names of the list in the order in which they first
came (`names_ofList`), and under each name the last value that the list has for it (`get?_ofList`).
Whatever it holds stood in the list (`mem_of_mem_entries_ofList`), and from its own entries it is
made again (`ofList_entries`). The proofs go by the last pair of the list: it is the last one to be
inserted.
-/

namespace WorldDoc

/-! ## First occurrences -/

section Distinct

variable {β : Type} [BEq β] [LawfulBEq β]

/-- One more element at the end is kept exactly if it has not come before. -/
theorem eraseDups_concat (l : List β) (b : β) :
    (l ++ [b]).eraseDups = if l.contains b then l.eraseDups else l.eraseDups ++ [b] := by
  rw [List.eraseDups_append, List.cons_removeAll, List.nil_removeAll]
  cases l.contains b <;> simp [List.eraseDups_cons]

end Distinct

namespace NameTable

variable {α : Type}

/-! ## Names and entries after an insertion -/

/-- A table contains exactly its names. -/
theorem contains_iff {t : NameTable α} {name : String} :
    t.contains name = true ↔ name ∈ t.names := by
  simp [contains, names]

/-- A table has as many entries as names. -/
theorem size_eq_length_names (t : NameTable α) : t.size = t.names.length := by
  simp [size, names]

/-- A name that is known keeps its place, and a new one comes last. -/
theorem names_insertEntry (name : String) (value : α) (entries : List (String × α)) :
    (insertEntry name value entries).map Prod.fst =
      if entries.any (fun e => e.1 == name) then entries.map Prod.fst
      else entries.map Prod.fst ++ [name] := by
  induction entries with
  | nil => rfl
  | cons e later ih =>
    rw [insertEntry]
    by_cases he : e.1 = name
    · simp [he]
    · rw [if_neg he, List.map_cons, ih]
      cases hlater : later.any fun e => e.1 == name <;> simp [he, hlater]

/-- A name that is inserted keeps its place if it has one, and comes last if it has none. -/
theorem names_insert (t : NameTable α) (name : String) (value : α) :
    (t.insert name value).names = if t.contains name then t.names else t.names ++ [name] :=
  names_insertEntry name value t.entries

/-- The names of a table after an insertion are the new one and those from before. -/
theorem mem_names_insert {t : NameTable α} {name other : String} {value : α} :
    other ∈ (t.insert name value).names ↔ other = name ∨ other ∈ t.names :=
  mem_names_insertEntry

/-- Only a new name makes a table larger. -/
theorem size_insert (t : NameTable α) (name : String) (value : α) :
    (t.insert name value).size = if t.contains name then t.size else t.size + 1 := by
  rw [size_eq_length_names, size_eq_length_names, names_insert]
  cases t.contains name <;> simp

/-- What a table holds after an insertion is the new entry or stood in it before. -/
theorem mem_entries_insert {t : NameTable α} {name : String} {value : α} {e : String × α}
    (h : e ∈ (t.insert name value).entries) : e = (name, value) ∨ e ∈ t.entries := by
  simp only [insert] at h
  generalize t.entries = entries at h ⊢
  induction entries with
  | nil => exact Or.inl (List.mem_singleton.mp h)
  | cons first later ih =>
    rw [insertEntry] at h
    split at h
    · rcases List.mem_cons.mp h with rfl | h
      · exact Or.inl rfl
      · exact Or.inr (List.mem_cons_of_mem _ h)
    · rcases List.mem_cons.mp h with rfl | h
      · exact Or.inr List.mem_cons_self
      · exact (ih h).imp_right (List.mem_cons_of_mem _)

/-! ## Tables from lists -/

/-- The last pair of a list is inserted last. -/
theorem ofList_concat (pairs : List (String × α)) (p : String × α) :
    ofList (pairs ++ [p]) = (ofList pairs).insert p.1 p.2 := by
  rw [ofList, ofList, List.foldl_append]
  rfl

/-- Under each name a table has the last value that the list has for it. -/
theorem get?_ofList (pairs : List (String × α)) (name : String) :
    (ofList pairs).get? name =
      ((pairs.filter fun p => p.1 = name).getLast?).map Prod.snd := by
  induction pairs using List.reverseRecOn with
  | nil => rfl
  | append_singleton pairs p ih =>
    rw [ofList_concat, get?_insert, ih, List.filter_append]
    by_cases hname : p.1 = name
    · simp [hname]
    · simp [hname, Ne.symm hname]

/-- The names of a table are those of the list, each at its first place. -/
theorem names_ofList (pairs : List (String × α)) :
    (ofList pairs).names = (pairs.map Prod.fst).eraseDups := by
  induction pairs using List.reverseRecOn with
  | nil => rfl
  | append_singleton pairs p ih =>
    have hcontains : (ofList pairs).contains p.1 = (pairs.map Prod.fst).contains p.1 := by
      rw [Bool.eq_iff_iff, contains_iff, ih, List.mem_eraseDups, List.contains_iff_mem]
    rw [ofList_concat, names_insert, ih, hcontains, List.map_append, List.map_singleton,
      eraseDups_concat]

/-- A table made of pairs contains exactly the names that stand in them. -/
theorem contains_ofList {pairs : List (String × α)} {name : String} :
    (ofList pairs).contains name = true ↔ name ∈ pairs.map Prod.fst := by
  rw [contains_iff, names_ofList, List.mem_eraseDups]

/-- An entry of a table made of pairs is one of the pairs. -/
theorem mem_of_mem_entries_ofList {pairs : List (String × α)} {e : String × α}
    (h : e ∈ (ofList pairs).entries) : e ∈ pairs := by
  induction pairs using List.reverseRecOn with
  | nil => exact absurd h List.not_mem_nil
  | append_singleton pairs p ih =>
    rw [ofList_concat] at h
    rw [List.mem_append, List.mem_singleton]
    exact (mem_entries_insert h).elim Or.inr fun hmem => Or.inl (ih hmem)

/-- An entry with a new name is appended. -/
theorem insertEntry_of_not_mem {name : String} {value : α} {entries : List (String × α)}
    (h : name ∉ entries.map Prod.fst) :
    insertEntry name value entries = entries ++ [(name, value)] := by
  induction entries with
  | nil => rfl
  | cons e later ih =>
    rw [List.map_cons, List.mem_cons, not_or] at h
    rw [insertEntry, if_neg (Ne.symm h.1), ih h.2, List.cons_append]

/-- A list in which no name comes twice is the table made from it. -/
theorem entries_ofList {pairs : List (String × α)} (h : (pairs.map Prod.fst).Nodup) :
    (ofList pairs).entries = pairs := by
  induction pairs using List.reverseRecOn with
  | nil => rfl
  | append_singleton pairs p ih =>
    rw [List.map_append, List.map_singleton, List.nodup_append] at h
    have hfresh : p.1 ∉ pairs.map Prod.fst := fun hmem =>
      h.2.2 p.1 hmem p.1 (List.mem_singleton_self _) rfl
    rw [ofList_concat]
    show insertEntry p.1 p.2 (ofList pairs).entries = pairs ++ [p]
    rw [ih h.1, insertEntry_of_not_mem hfresh]

/-- A table is made of its own entries. -/
theorem ofList_entries (t : NameTable α) : ofList t.entries = t :=
  NameTable.ext (entries_ofList t.nodup)

end NameTable

end WorldDoc
