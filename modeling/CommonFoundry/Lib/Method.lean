/-
# `CommonFoundry.Lib.Method` — methods that may fail halfway

A method on a mutable value reads and updates it, statement by statement, and may
return an error between two updates.  Nothing rolls the first one back, so the
value a failed call leaves behind is part of what the call does: `Method σ ε α`
gives an outcome *and* the value afterwards, whichever the outcome is.

Most methods check first and update then.  The rules below peel such a method
apart, from a call that succeeded (`call_lift_bind_eq_ok`) and from one that
failed (`call_lift_bind_error`): a check that fails leaves the value alone.
-/
import CommonFoundry.Lib.Outcome

namespace Lib

/-- A method on a value of type `σ`. -/
abbrev Method (σ ε α : Type) := ExceptT (Fault ε) (StateM σ) α

namespace Method

variable {σ ε α β : Type}

/-- The outcome of a call, and the value after it. -/
def call (method : Method σ ε α) (value : σ) : Outcome ε α × σ := method value

/-- A call that does not touch the value, and what follows it: success. -/
theorem call_lift_bind_eq_ok {x : Outcome ε α} {f : α → Method σ ε β} {s s' : σ} {b : β} :
    call (liftM x >>= f) s = (.ok b, s') ↔ ∃ a, x = .ok a ∧ call (f a) s = (.ok b, s') := by
  cases x with
  | ok a => exact ⟨fun h => ⟨a, rfl, h⟩, fun ⟨_, ha, h⟩ => by cases ha; exact h⟩
  | error e => exact ⟨fun h => (by cases h), fun ⟨_, ha, _⟩ => (by cases ha)⟩

/-- And failure: here, with the value as it was, or later. -/
theorem call_lift_bind_error {x : Outcome ε α} {f : α → Method σ ε β} {s s' : σ}
    {fault : Fault ε} (h : call (liftM x >>= f) s = (.error fault, s')) :
    (x = .error fault ∧ s' = s) ∨ ∃ a, x = .ok a ∧ call (f a) s = (.error fault, s') := by
  cases x with
  | ok a => exact .inr ⟨a, rfl, h⟩
  | error e =>
      cases h
      exact .inl ⟨rfl, rfl⟩

-- The proofs stand in parentheses so that the rules rewrite with a proof of their own:
-- to check a rewriting by `rfl` the kernel may run the whole method instead.
@[simp] theorem call_get_bind {f : σ → Method σ ε β} {s : σ} :
    call (get >>= f) s = call (f s) s := (rfl)

@[simp] theorem call_ok_bind {a : α} {f : α → Method σ ε β} {s : σ} :
    call (liftM (.ok a : Outcome ε α) >>= f) s = call (f a) s := (rfl)

@[simp] theorem call_error_bind {fault : Fault ε} {f : α → Method σ ε β} {s : σ} :
    call (liftM (.error fault : Outcome ε α) >>= f) s = (.error fault, s) := (rfl)

@[simp] theorem call_modify_bind {g : σ → σ} {f : PUnit → Method σ ε β} {s : σ} :
    call (modify g >>= f) s = call (f ⟨⟩) (g s) := (rfl)

@[simp] theorem call_pure {a : α} {s : σ} :
    call (pure a : Method σ ε α) s = (.ok a, s) := (rfl)

/-- A first part whose call is known, and what follows it. -/
theorem call_bind_of_ok {x : Method σ ε α} {f : α → Method σ ε β} {s s' : σ} {a : α}
    (h : call x s = (.ok a, s')) : call (x >>= f) s = call (f a) s' := by
  show ExceptT.bindCont f (call x s).1 (call x s).2 = _
  rw [h]
  rfl

/-- A first part that fails is the whole call. -/
theorem call_bind_of_error {x : Method σ ε α} {f : α → Method σ ε β} {s s' : σ}
    {fault : Fault ε} (h : call x s = (.error fault, s')) :
    call (x >>= f) s = (.error fault, s') := by
  show ExceptT.bindCont f (call x s).1 (call x s).2 = _
  rw [h]
  rfl

/-- A call that succeeds, part by part. -/
theorem call_bind_eq_ok {x : Method σ ε α} {f : α → Method σ ε β} {s s' : σ} {b : β} :
    call (x >>= f) s = (.ok b, s') ↔
      ∃ a middle, call x s = (.ok a, middle) ∧ call (f a) middle = (.ok b, s') := by
  rcases hx : call x s with ⟨outcome, middle⟩
  cases outcome with
  | ok a =>
      rw [call_bind_of_ok hx]
      constructor
      · exact fun h => ⟨a, middle, rfl, h⟩
      · rintro ⟨_, _, heq, h⟩
        cases heq
        exact h
  | error fault =>
      rw [call_bind_of_error hx]
      constructor
      · intro h
        cases h
      · rintro ⟨_, _, heq, _⟩
        cases heq

/-- A call that fails, in its first part or behind it. -/
theorem call_bind_eq_error {x : Method σ ε α} {f : α → Method σ ε β} {s s' : σ}
    {fault : Fault ε} :
    call (x >>= f) s = (.error fault, s') ↔ call x s = (.error fault, s') ∨
      ∃ a middle, call x s = (.ok a, middle) ∧ call (f a) middle = (.error fault, s') := by
  rcases hx : call x s with ⟨outcome, middle⟩
  cases outcome with
  | ok a =>
      rw [call_bind_of_ok hx]
      constructor
      · exact fun h => .inr ⟨a, middle, rfl, h⟩
      · rintro (heq | ⟨_, _, heq, h⟩)
        · cases heq
        · cases heq
          exact h
  | error fault =>
      rw [call_bind_of_error hx]
      constructor
      · intro h
        cases h
        exact .inl rfl
      · rintro (heq | ⟨_, _, heq, _⟩)
        · cases heq
          rfl
        · cases heq

/-! Methods that wrap the result of another. -/

theorem call_bind_pure_eq_ok {x : Method σ ε α} {g : α → β} {s s' : σ} {b : β} :
    call (x >>= fun a => pure (g a)) s = (.ok b, s') ↔
      ∃ a, call x s = (.ok a, s') ∧ g a = b := by
  rcases hx : call x s with ⟨outcome, after⟩
  cases outcome with
  | ok a =>
      rw [call_bind_of_ok hx, call_pure]
      grind
  | error fault =>
      rw [call_bind_of_error hx]
      grind

theorem call_bind_pure_error {x : Method σ ε α} {g : α → β} {s s' : σ} {fault : Fault ε} :
    call (x >>= fun a => pure (g a)) s = (.error fault, s') ↔ call x s = (.error fault, s') := by
  rcases hx : call x s with ⟨outcome, after⟩
  cases outcome with
  | ok a =>
      rw [call_bind_of_ok hx, call_pure]
      grind
  | error fault =>
      rw [call_bind_of_error hx]
      grind

end Method

end Lib
