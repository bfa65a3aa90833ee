import Mathlib.Tactic
import RemoteNodes.Fetch.Session
import RemoteNodes.Proofs.Fault
/-!
What sessions give: the outcome of a step and the server after it.

* `Session.outcome`: the outcome of work against a server, and the server after it.
* `Session.outcome_bind_ok`, `Session.outcome_gather`: the outcome of steps put together.
* `Executor.logged`: an executor that keeps what it was asked.
* `responseData_eq_ok`: a response gives data exactly if it is an object whose data is not null.
-/

namespace RemoteNodes

variable {σ α β : Type}

/-- A step against a server hands its value and its server to the next. -/
lemma run_bind_of_eq {work : StateM σ α} {server server' : σ} {a : α}
    (h : work.run server = (a, server')) (next : α → StateM σ β) :
    (work >>= next).run server = (next a).run server' := by
  rw [StateT.run_bind, h]
  rfl

/-! ### Outcomes -/

/-- The outcome of work against a server, and the server after it. -/
def Session.outcome (work : Session σ α) (server : σ) : Except Fault α × σ := work.run.run server

namespace Session

@[simp] lemma outcome_lift (x : Except Fault α) (server : σ) :
    outcome (liftM x : Session σ α) server = (x, server) := rfl

/-- A step that succeeds hands its value and its server to the next. -/
lemma outcome_bind_ok {work : Session σ α} {server server' : σ} {a : α}
    (h : outcome work server = (.ok a, server')) (next : α → Session σ β) :
    outcome (work >>= next) server = outcome (next a) server' := by
  rw [outcome, ExceptT.run_bind]
  exact run_bind_of_eq h _

/-- A check that succeeds hands its value to the next step and leaves the server alone. -/
lemma outcome_bind_lift {x : Except Fault α} {a : α} (h : x = .ok a) (next : α → Session σ β)
    (server : σ) : outcome ((liftM x : Session σ α) >>= next) server = outcome (next a) server := by
  refine outcome_bind_ok ?_ next
  rw [outcome_lift, h]

/-- Work that cannot fail, as a step of a session. -/
lemma outcome_lift_of_run {work : StateM σ α} {server server' : σ} {a : α}
    (h : work.run server = (a, server')) :
    outcome (liftM work : Session σ α) server = (.ok a, server') := by
  change (fun p : α × σ => (Except.ok p.1, p.2)) (work.run server) = _
  rw [h]

/-- What was gathered without a fault is the outcome of the step that gathers it. -/
lemma outcome_gather {work : StateM σ (Harvest α)} {server server' : σ} {items : List α}
    (h : work.run server = (⟨items, none⟩, server')) :
    outcome (gather work) server = (.ok items, server') :=
  outcome_bind_ok (outcome_lift_of_run h) _

end Session

/-- What is gathered one by one when no step fails or changes the server. -/
lemma Harvest.run_each {f : α → Session σ β} {g : α → β} {xs : List α}
    (h : ∀ x ∈ xs, ∀ s, (f x).outcome s = (.ok (g x), s)) (server : σ) :
    (each f xs).run server = (⟨xs.map g, none⟩, server) := by
  induction xs with
  | nil => rfl
  | cons x xs ih =>
      have hx : (f x).run.run server = (.ok (g x), server) := h x (by simp) server
      have hxs := ih fun y hy => h y (by simp [hy])
      rw [each, run_bind_of_eq hx]
      simp only
      rw [run_bind_of_eq hxs]
      rfl

/-! ### What an executor was asked -/

/-- An executor that keeps its requests, in order, beside the server. -/
def Executor.logged (execute : Executor σ) : Executor (σ × List Request) := fun request =>
  ExceptT.mk fun (server, asked) =>
    let (outcome, server') := (execute request).outcome server
    (outcome, server', asked ++ [request])

lemma Executor.outcome_logged {execute : Executor σ} {request : Request} {server server' : σ}
    {outcome : Except Fault Json} (h : (execute request).outcome server = (outcome, server'))
    (asked : List Request) :
    (execute.logged request).outcome (server, asked)
      = (outcome, server', asked ++ [request]) := by
  have h' : (execute.logged request).outcome (server, asked)
      = (((execute request).outcome server).1, ((execute request).outcome server).2,
        asked ++ [request]) := rfl
  rw [h', h]

/-! ### Data of responses -/

lemma Json.key_eq_ok {v x : Json} {name : String} :
    v.key name = .ok x ↔ ∃ fields, v = .obj fields ∧ (Keyed.get? fields name).getD .null = x := by
  cases v <;> simp [Json.key, Json.fieldOrNull]

/-- A response gives data exactly if it is an object whose data is there and not null. -/
lemma responseData_eq_ok {response data : Json} {words : String} :
    responseData response words = .ok data
      ↔ ∃ fields, response = .obj fields ∧ Keyed.get? fields "data" = some data
        ∧ data ≠ .null := by
  constructor
  · intro h
    obtain ⟨value, hkey, h⟩ := bind_eq_ok.mp h
    obtain ⟨fields, rfl, hvalue⟩ := Json.key_eq_ok.mp hkey
    have hne : value ≠ .null := by
      rintro rfl
      obtain ⟨errors, -, h⟩ := bind_eq_ok.mp h
      dsimp only at h
      split at h
      · cases h
      · split at h
        · obtain ⟨message, -, h⟩ := bind_eq_ok.mp h
          cases h
        · cases h
    have hdata : value = data := by
      cases value with
      | null => exact absurd rfl hne
      | bool _ | int _ | real _ | str _ | arr _ | obj _ => exact Except.ok.inj h
    subst hdata
    refine ⟨fields, rfl, ?_, hne⟩
    cases hget : Keyed.get? fields "data" with
    | none => exact absurd (by simpa [hget] using hvalue.symm) hne
    | some x => simpa [hget] using hvalue
  · rintro ⟨fields, rfl, hget, hne⟩
    have hkey : (Json.obj fields).key "data" = .ok data :=
      Json.key_eq_ok.mpr ⟨fields, rfl, by rw [hget]; rfl⟩
    rw [responseData, hkey]
    cases data with
    | null => exact absurd rfl hne
    | bool _ | int _ | real _ | str _ | arr _ | obj _ => rfl

end RemoteNodes
