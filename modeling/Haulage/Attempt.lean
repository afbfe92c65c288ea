/-
Module: Haulage.Attempt
Purpose: Operations on a state that may fail halfway.  What they have done by then stands.
Main exports: Attempt, Attempt.within, Attempt.ofResult
-/
import Haulage.Failure

namespace Haulage

/-- An operation on a state, which leaves a state behind whether it fails or not. -/
abbrev Attempt (σ β : Type) := EStateM Failure σ β

namespace Attempt

variable {σ τ β : Type}

/-- A result, or the failure to find one, which leaves the state alone. -/
def ofResult (r : Except Failure β) : Attempt σ β :=
  match r with
  | .ok b => pure b
  | .error e => throw e

instance : MonadLift (Except Failure) (EStateM Failure σ) := ⟨ofResult⟩

/-- An operation on a part of the state. -/
def within (get : σ → τ) (put : σ → τ → σ) (f : Attempt τ β) : Attempt σ β := fun s =>
  match f (get s) with
  | .ok b t => .ok b (put s t)
  | .error e t => .error e (put s t)

/-- The state that an operation leaves behind. -/
def stateAfter : EStateM.Result Failure σ β → σ
  | .ok _ s => s
  | .error _ s => s

/-- What an operation answers. -/
def answer : EStateM.Result Failure σ β → Except Failure β
  | .ok b _ => .ok b
  | .error e _ => .error e

@[simp] theorem ofResult_ok (b : β) (s : σ) : ofResult (.ok b) s = .ok b s := rfl

@[simp] theorem ofResult_error (e : Failure) (s : σ) :
    (ofResult (.error e) : Attempt σ β) s = .error e s := rfl

end Attempt

end Haulage
