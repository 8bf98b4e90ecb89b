import WorldDoc.Log

/-!
# Outcomes apart from events

What is recorded on the way does not bear on the outcome: the outcome of a sequence of operations is
the sequence of their outcomes, as it is without any log. Operations that record events are put
together as any others are (`LawfulMonad`).
-/

namespace WorldDoc.Traced

variable {ε α β : Type}

/-- What is put down as an outcome alone has that outcome. -/
@[simp] theorem outcome_ofExcept (r : Except ε α) : (ofExcept r).outcome = r := rfl

/-- To record an event always succeeds. -/
@[simp] theorem outcome_log (e : LogEvent) : (log e : Traced ε Unit).outcome = .ok () := rfl

/-- To record an event under a condition always succeeds. -/
@[simp] theorem outcome_logIf (condition : Bool) (e : LogEvent) :
    (logIf condition e : Traced ε Unit).outcome = .ok () := by
  cases condition <;> rfl

/-- The outcome of a sequence is the sequence of the outcomes. -/
theorem outcome_bind (x : Traced ε α) (f : α → Traced ε β) :
    (x >>= f).outcome = x.outcome >>= fun a => (f a).outcome := by
  show (bind x f).outcome = _
  rw [bind]
  cases x.outcome <;> rfl

/-- Behind a success a sequence ends as what follows does. -/
theorem outcome_bind_ok {x : Traced ε α} {a : α} (f : α → Traced ε β) (h : x.outcome = .ok a) :
    (x >>= f).outcome = (f a).outcome := by
  rw [outcome_bind, h]
  rfl

/-- Behind a failure nothing more happens. -/
theorem outcome_bind_error {x : Traced ε α} {e : ε} (f : α → Traced ε β)
    (h : x.outcome = .error e) : (x >>= f).outcome = .error e := by
  rw [outcome_bind, h]
  rfl

/-- A sequence succeeds exactly if both of its parts do. -/
theorem outcome_bind_eq_ok_iff {x : Traced ε α} {f : α → Traced ε β} {b : β} :
    (x >>= f).outcome = .ok b ↔ ∃ a, x.outcome = .ok a ∧ (f a).outcome = .ok b := by
  rw [outcome_bind]
  cases x.outcome with
  | error e => exact ⟨fun h => (nomatch h), fun ⟨_, h, _⟩ => (nomatch h)⟩
  | ok a => exact ⟨fun h => ⟨a, rfl, h⟩, fun ⟨_, ha, h⟩ => by rwa [← Except.ok.inj ha] at h⟩

instance : LawfulMonad (Traced ε) := LawfulMonad.mk' _
  (by
    rintro α ⟨events, e | a⟩
    · rfl
    · exact congrArg (Traced.mk · (.ok a)) (List.append_nil events))
  (fun a f => rfl)
  (by
    rintro α β γ ⟨events, e | a⟩ f g
    · rfl
    · cases hf : (f a).outcome <;> simp only [Bind.bind, bind, hf, List.append_assoc])

/-- Behind a success the events of what follows come last. -/
theorem events_bind_ok {x : Traced ε α} {a : α} (f : α → Traced ε β) (h : x.outcome = .ok a) :
    (x >>= f).events = x.events ++ (f a).events := by
  show (bind x f).events = _
  rw [bind, h]

end WorldDoc.Traced
