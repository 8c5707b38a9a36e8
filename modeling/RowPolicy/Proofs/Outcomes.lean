/-!
# Outcomes that may fail

When the steps of a computation succeed and fail, as far as this does not depend on what they do.
-/

namespace RowPolicy

variable {ε δ α β : Type} {outcome : Except ε α} {error : ε}

@[simp] theorem map_ok (f : α → β) (a : α) : (Except.ok a : Except ε α).map f = .ok (f a) := rfl

@[simp] theorem map_error (f : α → β) (error : ε) : (Except.error error).map f = .error error := rfl

@[simp] theorem ok_bind (a : α) (f : α → Except ε β) : Except.ok a >>= f = f a := rfl

@[simp] theorem error_bind (error : ε) (f : α → Except ε β) :
    Except.error error >>= f = .error error := rfl

@[simp] theorem mapError_ok (f : ε → δ) (a : α) : (Except.ok a).mapError f = .ok a := rfl

@[simp] theorem mapError_error (f : ε → δ) (error : ε) :
    (Except.error error : Except ε α).mapError f = .error (f error) := rfl

theorem map_eq_ok_iff {f : α → β} {b : β} :
    outcome.map f = .ok b ↔ ∃ a, outcome = .ok a ∧ f a = b := by
  cases outcome <;> simp

theorem map_eq_error_iff {f : α → β} : outcome.map f = .error error ↔ outcome = .error error := by
  cases outcome <;> simp

theorem exists_map_eq_ok_iff {f : α → β} :
    (∃ b, outcome.map f = .ok b) ↔ ∃ a, outcome = .ok a := by
  cases outcome <;> simp

theorem mapError_eq_ok_iff {f : ε → δ} {a : α} : outcome.mapError f = .ok a ↔ outcome = .ok a := by
  cases outcome <;> simp

theorem mapError_eq_error_iff {f : ε → δ} {error : δ} :
    outcome.mapError f = .error error ↔ ∃ cause, outcome = .error cause ∧ f cause = error := by
  cases outcome <;> simp

theorem bind_eq_ok_iff {f : α → Except ε β} {b : β} :
    outcome >>= f = .ok b ↔ ∃ a, outcome = .ok a ∧ f a = .ok b := by
  cases outcome <;> simp

theorem bind_eq_error_iff {f : α → Except ε β} :
    outcome >>= f = .error error ↔
      outcome = .error error ∨ ∃ a, outcome = .ok a ∧ f a = .error error := by
  cases outcome <;> simp

theorem mapM_eq_ok_map {f : α → Except ε β} {g : α → β} {as : List α}
    (h : ∀ a ∈ as, f a = .ok (g a)) : as.mapM f = .ok (as.map g) := by
  induction as with
  | nil => rfl
  | cons a as ih =>
      obtain ⟨hfirst, hrest⟩ := List.forall_mem_cons.mp h
      rw [List.mapM_cons, hfirst, ih hrest]
      rfl

end RowPolicy
