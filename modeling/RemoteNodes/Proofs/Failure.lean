import Mathlib.Tactic
import RemoteNodes.Proofs.Fault
/-!
Which faults a computation can fail with.

* `FailsIn`: every fault of a computation is one of some faults; `FailsIn.bind`, `FailsIn.mapM`: of
  steps that are put together.
* `Report.failsIn_bind`: the same for steps that give warnings.
-/

namespace RemoteNodes

variable {α β : Type} {P Q : Fault → Prop}

/-- A computation either succeeds or fails with one of some faults. -/
def FailsIn (P : Fault → Prop) (x : Except Fault α) : Prop := ∀ fault, x = .error fault → P fault

namespace FailsIn

lemma ok {a : α} : FailsIn P (.ok a : Except Fault α) := fun _ h => nomatch h

lemma pure {a : α} : FailsIn P (Pure.pure a : Except Fault α) := ok

lemma error {fault : Fault} (h : P fault) : FailsIn P (.error fault : Except Fault α) := by
  intro fault' heq
  cases heq
  exact h

lemma throw {fault : Fault} (h : P fault) : FailsIn P (MonadExcept.throw fault : Except Fault α) :=
  error h

lemma mono {x : Except Fault α} (h : FailsIn P x) (hPQ : ∀ fault, P fault → Q fault) :
    FailsIn Q x := fun fault hfault => hPQ fault (h fault hfault)

/-- The faults of two steps are those of the first one and those of the second one after what the
first one gives. -/
lemma bind {x : Except Fault α} {next : α → Except Fault β} (hx : FailsIn P x)
    (hnext : ∀ a, x = .ok a → FailsIn P (next a)) : FailsIn P (x >>= next) := by
  cases x with
  | error fault => exact error (hx fault rfl)
  | ok a => exact hnext a rfl

lemma map {x : Except Fault α} {f : α → β} (hx : FailsIn P x) : FailsIn P (f <$> x) := by
  cases x with
  | error fault => exact error (hx fault rfl)
  | ok a => exact ok

/-- The faults of steps over a list are those of each of them. -/
lemma mapM {f : α → Except Fault β} {xs : List α} (h : ∀ x ∈ xs, FailsIn P (f x)) :
    FailsIn P (xs.mapM f) := by
  induction xs with
  | nil => exact pure
  | cons x xs ih =>
      obtain ⟨hx, hxs⟩ := List.forall_mem_cons.mp h
      rw [List.mapM_cons]
      exact hx.bind fun _ _ => (ih hxs).bind fun _ _ => pure

/-- A computation that fails only in some ways succeeds or fails in one of them. -/
lemma ok_or {x : Except Fault α} (h : FailsIn P x) :
    (∃ a, x = .ok a) ∨ ∃ fault, x = .error fault ∧ P fault := by
  cases x with
  | error fault => exact .inr ⟨fault, rfl, h fault rfl⟩
  | ok a => exact .inl ⟨a, rfl⟩

/-- The faults that stand for a cause of their own. -/
lemma mapError {ε : Type} {x : Except ε α} {f : ε → Fault} (h : ∀ cause, P (f cause)) :
    FailsIn P (x.mapError f) := by
  cases x with
  | error cause => exact error (h cause)
  | ok a => exact ok

end FailsIn

/-- The faults of two steps that give warnings. -/
lemma Report.failsIn_bind {x : Report α} {next : α → Report β} (hx : FailsIn P x.outcome)
    (hnext : ∀ a, x.outcome = .ok a → FailsIn P (next a).outcome) :
    FailsIn P (x >>= next).outcome := by
  cases houtcome : x.outcome with
  | error fault =>
      rw [bind_of_error next houtcome]
      exact .error (hx fault houtcome)
  | ok a =>
      rw [bind_of_ok next houtcome]
      exact hnext a houtcome

end RemoteNodes
