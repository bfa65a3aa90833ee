import Mathlib.Logic.Relation
import Mathlib.Tactic
import RemoteNodes.Proofs.Document.Spreads
/-!
The walk along spreads: it comes to an end on every graph, and finds names level by level.

* `WalkStep`: one turn of the walk, in which one name is seen to. `WalksTo`: the walk ends with some
  names; `acc_walkStep`: **no walk among finitely many names goes on for ever**.
* `BreadthFirst`: names level by level, each level in the order in which the one before spreads it.
* `Document.breadthFirst_reachable`, `Document.walksTo_reachable`: **names within reach are found in
  this order**, and **the bound on the walk never cuts it short**.
-/

namespace RemoteNodes

open Relation

variable {next : String → List String} {found names : List String} {fuel position : Nat}

/-! ### Appending names -/

lemma appendNew_eq (found names : List String) :
    appendNew found names = found ++ (names.removeAll found).eraseDups := by
  induction names generalizing found with
  | nil => simp [appendNew, List.removeAll]
  | cons name names ih =>
      rw [appendNew]
      split
      · rename_i hfound
        have hmem : name ∈ found := by simpa using hfound
        rw [ih, List.removeAll, List.removeAll, List.filter_cons_of_neg (by simpa using hmem)]
      · rename_i hnew
        have hmem : name ∉ found := by simpa using hnew
        rw [ih, List.removeAll, List.removeAll, List.filter_cons_of_pos (by simpa using hmem),
          List.eraseDups_cons, List.filter_filter, List.append_assoc, List.singleton_append]
        congr 3
        exact List.filter_congr fun other _ => by by_cases h : other = name <;> simp [h]

lemma appendNew_append (found names more : List String) :
    appendNew found (names ++ more) = appendNew (appendNew found names) more := by
  induction names generalizing found with
  | nil => rfl
  | cons name names ih =>
      rw [List.cons_append, appendNew, appendNew]
      split
      · exact ih found
      · exact ih (found ++ [name])

lemma appendNew_nil_eq (names : List String) : appendNew [] names = names.eraseDups := by
  simp [appendNew_eq, List.removeAll]

/-! ### The walk as a loop -/

/-- One turn of the walk: the name at the position is seen to, which appends the new names that it
leads to. -/
inductive WalkStep (next : String → List String) : Nat × List String → Nat × List String → Prop
  | see {position : Nat} {found : List String} {name : String}
      (h : found[position]? = some name) :
      WalkStep next (position, found) (position + 1, appendNew found (next name))

/-- The walk from some names comes to an end, with others: it has seen to all of them. -/
structure WalksTo (next : String → List String) (names order : List String) : Prop where
  /-- The walk cannot go on for ever. -/
  ends : Acc (flip (WalkStep next)) (0, names.eraseDups)
  run : ReflTransGen (WalkStep next) (0, names.eraseDups) (order.length, order)
  last : ∀ s, ¬ WalkStep next (order.length, order) s

lemma not_walkStep_end (order : List String) (s : Nat × List String) :
    ¬ WalkStep next (order.length, order) s := by
  rintro ⟨h⟩
  simp at h

/-- Among finitely many names no walk goes on for ever: it finds none of them twice. -/
theorem acc_walkStep {bound : List String} (hnext : ∀ name, next name ⊆ bound)
    (hnodup : found.Nodup) (hbound : found ⊆ bound) :
    Acc (flip (WalkStep next)) (position, found) := by
  generalize hleft : bound.length - position = left
  induction left using Nat.strong_induction_on generalizing position found with
  | _ left ih =>
    refine ⟨_, fun s (hs : WalkStep next (position, found) s) => ?_⟩
    obtain @⟨_, _, name, hname⟩ := hs
    have hposition : position < found.length := (List.getElem?_eq_some_iff.mp hname).1
    have hlength : found.length ≤ bound.length := (hnodup.subperm hbound).length_le
    exact ih _ (by omega) (nodup_appendNew hnodup _) (appendNew_subset hbound (hnext name)) rfl

/-- A walk with enough fuel ends by itself. -/
lemma walks_reach {bound : List String} (hnext : ∀ name, next name ⊆ bound)
    (hnodup : found.Nodup) (hbound : found ⊆ bound) (hfuel : bound.length < position + fuel)
    (hposition : position ≤ found.length) :
    ReflTransGen (WalkStep next) (position, found)
      ((reach next fuel position found).length, reach next fuel position found) := by
  have hlength : found.length ≤ bound.length := (hnodup.subperm hbound).length_le
  induction fuel generalizing position found with
  | zero => omega
  | succ fuel ih =>
      rw [reach]
      split
      · rename_i hend
        rw [le_antisymm hposition (List.getElem?_eq_none_iff.mp hend)]
      · rename_i name hname
        have hlt : position < found.length := (List.getElem?_eq_some_iff.mp hname).1
        have hnodup' := nodup_appendNew hnodup (next name)
        have hbound' := appendNew_subset hbound (hnext name)
        have hlonger := (prefix_appendNew found (next name)).length_le
        exact .head (.see hname) (ih hnodup' hbound' (by omega) (by omega)
          (hnodup'.subperm hbound').length_le)

/-! ### Level by level -/

/-- Names in breadth-first order: those of one level, then those of the next one. The next level has
the names that the first one leads to, name by name and without those that have come before. -/
inductive BreadthFirst (next : String → List String) :
    (before level : List String) → List String → Prop
  | done {before : List String} : BreadthFirst next before [] []
  | level {before level rest : List String} (hlevel : level ≠ [])
      (hrest : BreadthFirst next (before ++ level)
        ((level.flatMap next).removeAll (before ++ level)).eraseDups rest) :
      BreadthFirst next before level (level ++ rest)

/-- Seeing to all names of one level. -/
lemma reach_level (before level later : List String) :
    reach next (fuel + level.length) before.length (before ++ level ++ later)
      = reach next fuel (before ++ level).length
        (appendNew (before ++ level ++ later) (level.flatMap next)) := by
  induction level generalizing before later with
  | nil => simp [appendNew]
  | cons name level ih =>
      have hname : (before ++ name :: level ++ later)[before.length]? = some name := by simp
      rw [List.length_cons, ← Nat.add_assoc, reach, hname]
      -- what the name leads to comes behind the other names of the level
      have hshift : appendNew (before ++ name :: level ++ later) (next name)
          = (before ++ [name]) ++ level
            ++ (later ++ ((next name).removeAll (before ++ name :: level ++ later)).eraseDups) := by
        rw [appendNew_eq]
        simp only [List.append_assoc, List.cons_append, List.nil_append]
      have hlength : before.length + 1 = (before ++ [name]).length := by simp
      dsimp only
      rw [hshift, hlength, ih, ← hshift, ← appendNew_append, List.flatMap_cons]
      simp

/-- A walk with enough fuel finds names level by level. -/
lemma exists_breadthFirst {bound before level : List String} (hnext : ∀ name, next name ⊆ bound)
    (hnodup : (before ++ level).Nodup) (hbound : before ++ level ⊆ bound)
    (hfuel : bound.length < before.length + fuel) :
    ∃ rest, BreadthFirst next before level rest
      ∧ reach next fuel before.length (before ++ level) = before ++ rest := by
  generalize hleft : bound.length - before.length = left
  induction left using Nat.strong_induction_on generalizing before level fuel with
  | _ left ih =>
    have hlength := (hnodup.subperm hbound).length_le
    rw [List.length_append] at hlength
    by_cases hlevel : level = []
    · subst hlevel
      refine ⟨[], .done, ?_⟩
      cases fuel with
      | zero => rfl
      | succ fuel => simp [reach]
    · have hpos : 0 < level.length := List.length_pos_iff.mpr hlevel
      obtain ⟨fuel, rfl⟩ : ∃ fuel', fuel = fuel' + level.length :=
        ⟨fuel - level.length, by omega⟩
      have hreach := @reach_level next fuel before level []
      rw [List.append_nil, appendNew_eq] at hreach
      have hnodup' := nodup_appendNew hnodup (level.flatMap next)
      rw [appendNew_eq] at hnodup'
      have hbound' : before ++ level
          ++ ((level.flatMap next).removeAll (before ++ level)).eraseDups ⊆ bound := by
        rw [← appendNew_eq]
        refine appendNew_subset hbound fun m hm => ?_
        obtain ⟨name, -, hm⟩ := List.mem_flatMap.mp hm
        exact hnext name hm
      have hlength' : (before ++ level).length = before.length + level.length :=
        List.length_append
      obtain ⟨rest, hrest, heq⟩ := @ih _ (by omega) fuel _ _ hnodup' hbound' (by omega) rfl
      exact ⟨level ++ rest, .level hlevel hrest, by rw [hreach, heq, List.append_assoc]⟩

/-! ### Names within reach -/

namespace Document

/-- Names within reach are found level by level. -/
theorem breadthFirst_reachable (document : Document) (names : List String) :
    BreadthFirst document.spreadsOf [] names.eraseDups (document.reachable names) := by
  obtain ⟨rest, hrest, heq⟩ : ∃ rest,
      BreadthFirst document.spreadsOf [] (appendNew [] names) rest
        ∧ document.reachable names = [] ++ rest :=
    exists_breadthFirst (fun _ => spreadsOf_subset_findable)
      (nodup_appendNew List.nodup_nil names) subset_findable
      (by simpa using length_findable_lt)
  rwa [heq, List.nil_append, ← appendNew_nil_eq]

/-- The walk to the names within reach comes to its end. -/
theorem walksTo_reachable (document : Document) (names : List String) :
    WalksTo document.spreadsOf names (document.reachable names) := by
  have hnodup := nodup_appendNew List.nodup_nil names
  refine ⟨?_, ?_, not_walkStep_end _⟩
  · rw [← appendNew_nil_eq]
    exact acc_walkStep (fun _ => spreadsOf_subset_findable) hnodup subset_findable
  · rw [← appendNew_nil_eq]
    exact walks_reach (fun _ => spreadsOf_subset_findable) hnodup subset_findable
      (by simpa using length_findable_lt) (Nat.zero_le _)

end Document

end RemoteNodes
