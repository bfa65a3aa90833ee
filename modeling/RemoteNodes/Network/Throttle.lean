import RemoteNodes.Fault
/-!
Throttling: of many requests at most a limited number runs at a time; the others wait for their
turn.

* `Throttle.step`: the next request starts if there is room, otherwise the one that has run
  longest ends.
* `Throttle.run`: all requests to their ends, with the most that ran at a time.
* `length_running_step`: a step never lets more run than the limit.
-/

namespace RemoteNodes

/-- Requests that run, the longest first, and requests that wait. -/
structure Throttle (α : Type) where
  limit : Nat
  running : List α
  waiting : List α

namespace Throttle

variable {α : Type}

/-- A throttle in front of requests. -/
def make (limit : Int) (requests : List α) : Except Fault (Throttle α) :=
  if limit < 1 then .error .noConcurrency else .ok ⟨limit.toNat, [], requests⟩

/-- One event: a start if there is room for a waiting request, otherwise an end; none when all is
done. -/
def step (t : Throttle α) : Option (Throttle α × Option α) :=
  match t.waiting with
  | next :: rest =>
    if t.running.length < t.limit then
      some ({ t with running := t.running ++ [next], waiting := rest }, none)
    else
      match t.running with
      | [] => none
      | first :: others => some ({ t with running := others }, some first)
  | [] =>
    match t.running with
    | [] => none
    | first :: others => some ({ t with running := others }, some first)

/-- Steps until all is done: the requests in the order of their ends, and the most that ran at a
time. -/
def run : (steps : Nat) → Throttle α → (peak : Nat) → List α × Nat
  | 0, _, peak => ([], peak)
  | steps + 1, t, peak =>
    match t.step with
    | none => ([], peak)
    | some (t, ended?) =>
      let (ended, peak) := run steps t (max peak t.running.length)
      (ended?.toList ++ ended, peak)

/-- All requests in the order of their ends, and the most that ran at a time. -/
def runAll (t : Throttle α) : List α × Nat :=
  t.run (2 * t.waiting.length + t.running.length) t.running.length

theorem length_running_step {t u : Throttle α} {ended? : Option α}
    (h : t.running.length ≤ t.limit) (hs : t.step = some (u, ended?)) :
    u.running.length ≤ u.limit := by
  unfold step at hs
  split at hs
  · split at hs
    · rename_i hl
      simp only [Option.some.injEq, Prod.mk.injEq] at hs
      obtain ⟨rfl, -⟩ := hs
      simpa using Nat.succ_le_of_lt hl
    · split at hs
      · cases hs
      · rename_i hr
        simp only [Option.some.injEq, Prod.mk.injEq] at hs
        obtain ⟨rfl, -⟩ := hs
        simp only [hr, List.length_cons] at h
        exact Nat.le_of_succ_le h
  · split at hs
    · cases hs
    · rename_i hr
      simp only [Option.some.injEq, Prod.mk.injEq] at hs
      obtain ⟨rfl, -⟩ := hs
      simp only [hr, List.length_cons] at h
      exact Nat.le_of_succ_le h

end Throttle

end RemoteNodes
