import WorldDoc.Value.Nested

/-!
# Conversion is recursion

The conversion of nested lists keeps the lists that it is inside of in a stack of frames. What it
computes is nevertheless the plain recursion over the structure: a single member is converted by
itself (`convert_single`), and a list by converting its members from left to right, up to the first
failure, and putting the results together (`convert_list`).

## Shape of the proof

What is left to do once the innermost list is complete depends only on that list and on the frames
around it (`resume`). So running a frame is converting the members that wait in it, one after the
other, and then resuming (`run_eq`). The induction is on the work that is left, which a list as a
member of its frame outweighs: converting its members costs less than the member did.
-/

namespace WorldDoc.Nesting

variable {α β ε : Type} (n : Nesting α) (single : α → Except ε β) (list : List β → β)

/-- Goes on in the frames around a list once it is complete. -/
def resume (b : β) : List (Frame α β) → Except ε β
  | [] => .ok b
  | outer :: rest => run n single list ⟨outer.waiting, b :: outer.done⟩ rest

/-! ## One step of a run -/

/-- A frame with nothing left to do completes its list and returns it to the frame around it. -/
theorem run_nil (done : List β) (rest : List (Frame α β)) :
    run n single list ⟨[], done⟩ rest = resume n single list (list done.reverse) rest := by
  cases rest with
  | nil => rw [run, resume]
  | cons outer rest => rw [run, resume]

variable {n} {a : α} {items : List α}

/-- A list is taken up in a frame of its own. -/
theorem run_cons_list (h : n.items? a = some items) (waiting : List α) (done : List β)
    (rest : List (Frame α β)) :
    run n single list ⟨a :: waiting, done⟩ rest =
      run n single list ⟨items, []⟩ (⟨waiting, done⟩ :: rest) := by
  rw [run]
  split
  · rename_i found hfound
    rw [h] at hfound
    obtain rfl := Option.some.inj hfound
    rfl
  · rename_i hnone
    rw [h] at hnone
    contradiction

/-- Anything else is converted on the spot, and a failure ends the run. -/
theorem run_cons_single (h : n.items? a = none) (waiting : List α) (done : List β)
    (rest : List (Frame α β)) :
    run n single list ⟨a :: waiting, done⟩ rest =
      single a >>= fun b => run n single list ⟨waiting, b :: done⟩ rest := by
  rw [run]
  split
  · rename_i found hfound
    rw [h] at hfound
    contradiction
  · cases single a <;> rfl

/-- A single member is converted by itself. -/
theorem convert_single (h : n.items? a = none) : convert n single list a = single a := by
  rw [convert, h]

/-! ## Whole runs -/

/-- Running a frame is converting the members that wait, from left to right, and resuming with the
list of all results. -/
theorem run_eq (waiting : List α) (done : List β) (rest : List (Frame α β)) :
    run n single list ⟨waiting, done⟩ rest =
      waiting.mapM (convert n single list) >>= fun bs =>
        resume n single list (list (done.reverse ++ bs)) rest := by
  -- the induction is on all that is left to convert, here and in the frames below
  induction h : total n.weight waiting + total n.work rest using Nat.strongRecOn
    generalizing waiting done rest with
  | ind left ih =>
    cases waiting with
    | nil =>
      rw [run_nil, List.mapM_nil, pure_bind, List.append_nil]
    | cons a waiting =>
      rw [total_cons] at h
      have hweight := n.weight_pos a
      have hwaiting (done : List β) := ih _ (by omega) waiting done rest rfl
      rw [List.mapM_cons, bind_assoc]
      cases hitems : n.items? a with
      | none =>
        rw [run_cons_single single list hitems, convert_single single list hitems]
        refine bind_congr fun b => ?_
        rw [hwaiting, bind_assoc]
        refine bind_congr fun bs => ?_
        rw [pure_bind, List.reverse_cons, List.append_assoc, List.singleton_append]
      | some items =>
        have hless := n.weight_items hitems
        -- the machine enters the list at once, while `convert` starts afresh on its members
        have hinner := ih _ (by simp only [work, total_cons]; omega)
          items [] (⟨waiting, done⟩ :: rest) rfl
        have halone : convert n single list a =
            items.mapM (convert n single list) >>= fun bs => .ok (list bs) := by
          rw [convert, hitems]
          exact ih _ (by simp only [total_nil]; omega) items [] [] rfl
        rw [run_cons_list single list hitems, hinner, halone, bind_assoc]
        refine bind_congr fun bs => ?_
        show run n single list ⟨waiting, list bs :: done⟩ rest = _
        rw [hwaiting]
        show _ = (waiting.mapM (convert n single list) >>= fun cs => pure (list bs :: cs)) >>= _
        rw [bind_assoc]
        refine bind_congr fun cs => ?_
        rw [pure_bind, List.reverse_cons, List.append_assoc, List.singleton_append]

/-- A list is converted by converting its members from left to right. -/
theorem convert_list (h : n.items? a = some items) :
    convert n single list a = items.mapM (convert n single list) >>= fun bs => .ok (list bs) := by
  rw [convert, h]
  exact run_eq single list items [] []

end WorldDoc.Nesting
