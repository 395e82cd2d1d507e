/-! # Outcomes

Reading is done in steps that may fail. A chain of steps succeeds when every step does, so what a
success says is taken apart step by step (`Outcome.bind_eq_ok`, `Outcome.mapError_eq_ok`).
-/

namespace VersionedCatalog.Outcome

variable {ε ε' α β : Type}

@[simp] theorem ok_bind (a : α) (f : α → Except ε β) : (Except.ok a >>= f) = f a := rfl

@[simp] theorem error_bind (e : ε) (f : α → Except ε β) : (Except.error e >>= f) = .error e := rfl

@[simp] theorem pure_eq_ok (a : α) : (pure a : Except ε α) = .ok a := rfl

@[simp] theorem throw_eq_error (e : ε) : (throw e : Except ε α) = .error e := rfl

@[simp] theorem mapError_ok (f : ε → ε') (a : α) :
    (Except.ok a : Except ε α).mapError f = .ok a := rfl

@[simp] theorem mapError_error (f : ε → ε') (e : ε) :
    (Except.error e : Except ε α).mapError f = .error (f e) := rfl

theorem bind_eq_ok {x : Except ε α} {f : α → Except ε β} {b : β} (hOk : x >>= f = .ok b) :
    ∃ a, x = .ok a ∧ f a = .ok b := by
  cases x with
  | error e => cases hOk
  | ok a => exact ⟨a, rfl, hOk⟩

theorem mapError_eq_ok {x : Except ε α} {f : ε → ε'} {a : α} (hOk : x.mapError f = .ok a) :
    x = .ok a := by
  cases x with
  | error e => cases hOk
  | ok b => cases hOk; rfl

theorem exists_of_isOk {x : Except ε α} (hOk : x.isOk = true) : ∃ a, x = .ok a := by
  cases x with
  | error e => cases hOk
  | ok a => exact ⟨a, rfl⟩

end VersionedCatalog.Outcome
