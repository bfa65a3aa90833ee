import Mathlib.Tactic
import RemoteNodes.Fault
/-!
When steps that may fail succeed together.

* `bind_eq_ok`, `mapM_eq_ok`, `exists_mapM`: two steps, and a step over a list.
* `mem_of_mapM`: each member of the list has given a result, and nothing else has.
* `Report.outcome_bind_eq_ok`: two steps that give warnings.
-/

namespace RemoteNodes

variable {α β : Type}

/-- Two steps succeed together exactly if the second succeeds with what the first gives. -/
lemma bind_eq_ok {ε : Type} {x : Except ε α} {next : α → Except ε β} {b : β} :
    x >>= next = .ok b ↔ ∃ a, x = .ok a ∧ next a = .ok b := by
  cases x with
  | error fault =>
      constructor
      · intro h
        cases h
      · rintro ⟨a, ha, -⟩
        cases ha
  | ok a =>
      constructor
      · exact fun h => ⟨a, rfl, h⟩
      · rintro ⟨a', ha, h⟩
        cases ha
        exact h

/-- Steps over a list succeed together exactly if each of them succeeds. -/
lemma mapM_eq_ok {ε : Type} {f : α → Except ε β} {xs : List α} {ys : List β} :
    xs.mapM f = .ok ys ↔ List.Forall₂ (fun x y => f x = .ok y) xs ys := by
  induction xs generalizing ys with
  | nil =>
      rw [List.mapM_nil, List.forall₂_nil_left_iff]
      exact ⟨fun h => (Except.ok.inj h).symm, fun h => h ▸ rfl⟩
  | cons x xs ih =>
      rw [List.mapM_cons, bind_eq_ok]
      constructor
      · rintro ⟨y, hy, h⟩
        obtain ⟨rest, hrest, h⟩ := bind_eq_ok.mp h
        cases h
        exact .cons hy (ih.mp hrest)
      · rintro (_ | ⟨hy, hrest⟩)
        exact ⟨_, hy, bind_eq_ok.mpr ⟨_, ih.mpr hrest, rfl⟩⟩

lemma exists_mapM {ε : Type} {f : α → Except ε β} {xs : List α}
    (h : ∀ x ∈ xs, ∃ y, f x = .ok y) : ∃ ys, xs.mapM f = .ok ys := by
  induction xs with
  | nil => exact ⟨[], rfl⟩
  | cons x xs ih =>
      obtain ⟨y, hy⟩ := h x (by simp)
      obtain ⟨ys, hys⟩ := ih fun x' hx' => h x' (by simp [hx'])
      exact ⟨y :: ys, mapM_eq_ok.mpr (.cons hy (mapM_eq_ok.mp hys))⟩

/-- Of steps over a list that succeed together, each gives one of the results, and each result comes
from one of them. -/
lemma mem_of_mapM {ε : Type} {f : α → Except ε β} {xs : List α} {ys : List β}
    (h : xs.mapM f = .ok ys) :
    (∀ x ∈ xs, ∃ y ∈ ys, f x = .ok y) ∧ ∀ y ∈ ys, ∃ x ∈ xs, f x = .ok y := by
  have hall := mapM_eq_ok.mp h
  clear h
  induction hall with
  | nil => simp
  | @cons x y xs ys hxy _ ih =>
      obtain ⟨hgives, hcomes⟩ := ih
      refine ⟨List.forall_mem_cons.mpr ⟨⟨y, by simp, hxy⟩, fun x' hx' => ?_⟩,
        List.forall_mem_cons.mpr ⟨⟨x, by simp, hxy⟩, fun y' hy' => ?_⟩⟩
      · obtain ⟨y', hy', h⟩ := hgives x' hx'
        exact ⟨y', by simp [hy'], h⟩
      · obtain ⟨x', hx', h⟩ := hcomes y' hy'
        exact ⟨x', by simp [hx'], h⟩

namespace Report

@[simp] lemma outcome_of (outcome : Except Fault α) : (Report.of outcome).outcome = outcome := rfl

/-- Two steps that give warnings succeed together exactly if the second succeeds with what the first
gives. -/
lemma outcome_bind_eq_ok {x : Report α} {next : α → Report β} {b : β} :
    (x >>= next).outcome = .ok b ↔ ∃ a, x.outcome = .ok a ∧ (next a).outcome = .ok b := by
  cases hx : x.outcome with
  | error fault => rw [bind_of_error next hx]; simp
  | ok a => rw [bind_of_ok next hx]; simp

end Report

end RemoteNodes
