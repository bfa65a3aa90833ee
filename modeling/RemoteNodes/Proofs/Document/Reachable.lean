import Mathlib.Tactic
import RemoteNodes.Document.Reachable
/-!
The walk along spreads is complete: its bound is large enough for it to see to every name that it
finds.

* `mem_appendNew`, `nodup_appendNew`: what is appended.
* `mem_reach_of_mem_next`: a walk with enough fuel ends closed. What it has found so far is bounded
  by a list, since it has no name twice.
* `Document.mem_reachable_of_mem_spreadsOf`: **what is within reach is closed under spreads**.
-/

namespace RemoteNodes

/-! ### Appending names -/

lemma mem_appendNew {found names : List String} {name : String} :
    name ∈ appendNew found names ↔ name ∈ found ∨ name ∈ names := by
  induction names generalizing found with
  | nil => simp [appendNew]
  | cons other names ih =>
      rw [appendNew]
      split
      · rename_i hother
        rw [List.contains_iff_mem] at hother
        rw [ih, List.mem_cons]
        constructor
        · exact fun h => h.imp_right Or.inr
        · rintro (h | rfl | h)
          · exact .inl h
          · exact .inl hother
          · exact .inr h
      · rw [ih, List.mem_append, List.mem_singleton, List.mem_cons, or_assoc]

lemma appendNew_subset {found names bound : List String} (hfound : found ⊆ bound)
    (hnames : names ⊆ bound) : appendNew found names ⊆ bound :=
  fun _ h => (mem_appendNew.mp h).elim (hfound ·) (hnames ·)

lemma nodup_appendNew {found : List String} (hfound : found.Nodup) (names : List String) :
    (appendNew found names).Nodup := by
  induction names generalizing found with
  | nil => exact hfound
  | cons other names ih =>
      rw [appendNew]
      split
      · exact ih hfound
      · rename_i hother
        rw [List.contains_iff_mem] at hother
        rw [← List.concat_eq_append]
        exact ih (hfound.concat hother)

lemma prefix_appendNew (found names : List String) : found <+: appendNew found names := by
  induction names generalizing found with
  | nil => exact List.prefix_rfl
  | cons other names ih =>
      rw [appendNew]
      split
      · exact ih found
      · exact (List.prefix_append _ _).trans (ih _)

/-! ### The walk -/

section Walk

variable {next : String → List String} {bound found : List String} {fuel position : Nat}

lemma mem_reach_of_mem {name : String} (h : name ∈ found) :
    name ∈ reach next fuel position found := by
  induction fuel generalizing position found with
  | zero => exact h
  | succ fuel ih =>
      rw [reach]
      split
      · exact h
      · exact ih (mem_appendNew.mpr (.inl h))

/-- All names up to the position have been seen to: what follows them has been found. -/
def SeenTo (next : String → List String) (position : Nat) (found : List String) : Prop :=
  ∀ (i : Nat) (name : String), i < position → found[i]? = some name → ∀ n ∈ next name, n ∈ found

lemma SeenTo.closed (h : SeenTo next position found) (hlength : found.length ≤ position)
    {name n : String} (hname : name ∈ found) (hn : n ∈ next name) : n ∈ found := by
  obtain ⟨i, hi, rfl⟩ := List.getElem_of_mem hname
  exact h i _ (by omega) (List.getElem?_eq_getElem hi) n hn

/-- Seeing to one more name. -/
lemma SeenTo.step (h : SeenTo next position found) {name : String}
    (hname : found[position]? = some name) :
    SeenTo next (position + 1) (appendNew found (next name)) := by
  intro i other hi hother n hn
  have hposition : position < found.length := by
    obtain ⟨hlt, -⟩ := List.getElem?_eq_some_iff.mp hname
    exact hlt
  obtain ⟨later, hlater⟩ := prefix_appendNew found (next name)
  rw [← hlater, List.getElem?_append_left (by omega)] at hother
  rcases Nat.lt_succ_iff_lt_or_eq.mp hi with hi | rfl
  · exact mem_appendNew.mpr (.inl (h i other hi hother n hn))
  · cases hname.symm.trans hother
    exact mem_appendNew.mpr (.inr hn)

/-- A walk whose fuel exceeds the number of names that it can find ends closed. -/
lemma mem_reach_of_mem_next (hnext : ∀ name, next name ⊆ bound) (hseen : SeenTo next position found)
    (hnodup : found.Nodup) (hbound : found ⊆ bound) (hfuel : bound.length < position + fuel)
    {name n : String} (hname : name ∈ reach next fuel position found) (hn : n ∈ next name) :
    n ∈ reach next fuel position found := by
  have hlength : found.length ≤ bound.length := (hnodup.subperm hbound).length_le
  induction fuel generalizing position found with
  | zero => exact hseen.closed (by omega) hname hn
  | succ fuel ih =>
      rw [reach] at hname ⊢
      split at hname
      · rename_i hend
        exact hseen.closed (List.getElem?_eq_none_iff.mp hend) hname hn
      · rename_i first hfirst
        have hnodup' := nodup_appendNew hnodup (next first)
        have hbound' : appendNew found (next first) ⊆ bound :=
          appendNew_subset hbound (hnext first)
        exact ih (hseen.step hfirst) hnodup' hbound' (by omega) hname
          (hnodup'.subperm hbound').length_le

end Walk

/-! ### Names within reach -/

/-- If no other item has the key of one, this one is the last one of its key. -/
lemma find?_reverse_of_unique {α β : Type} [BEq β] [LawfulBEq β] (key : α → β) {xs : List α} {x : α}
    (hx : x ∈ xs) (hunique : ∀ y ∈ xs, key y = key x → y = x) :
    (xs.reverse.find? fun y => key y == key x) = some x := by
  cases hfind : xs.reverse.find? fun y => key y == key x with
  | none =>
      have hnone := List.find?_eq_none.mp hfind x (List.mem_reverse.mpr hx)
      exact absurd (beq_self_eq_true (key x)) hnone
  | some y =>
      have hkey := List.find?_some hfind
      rw [hunique y (List.mem_reverse.mp (List.mem_of_find?_eq_some hfind)) (beq_iff_eq.mp hkey)]

namespace Document

variable {document : Document} {names : List String} {name : String}

lemma mem_reachable_of_mem (h : name ∈ names) : name ∈ document.reachable names :=
  mem_reach_of_mem (mem_appendNew.mpr (.inr h))

/-- What the fragment of a name spreads, its last definition counting. -/
lemma spreadsOf_subset :
    document.spreadsOf name ⊆ document.fragments.flatMap fun f => spreadNamesIn f.selections := by
  intro n hn
  rw [spreadsOf] at hn
  split at hn
  · rename_i f hf
    exact List.mem_flatMap.mpr ⟨f, List.mem_reverse.mp (List.mem_of_find?_eq_some hf), hn⟩
  · cases hn

/-- All names that a walk from some names can find. -/
def findable (document : Document) (names : List String) : List String :=
  appendNew [] names ++ document.fragments.flatMap fun f => spreadNamesIn f.selections

lemma subset_findable : appendNew [] names ⊆ document.findable names :=
  List.subset_append_left _ _

lemma spreadsOf_subset_findable : document.spreadsOf name ⊆ document.findable names :=
  List.subset_append_of_subset_right _ spreadsOf_subset

/-- The walk has fuel for all of them. -/
lemma length_findable_lt :
    (document.findable names).length < (appendNew [] names).length + document.spreadCount + 1 := by
  rw [findable, List.length_append, spreadCount]
  omega

/-- What the fragments within reach spread is within reach. -/
theorem mem_reachable_of_mem_spreadsOf {n : String} (hname : name ∈ document.reachable names)
    (hn : n ∈ document.spreadsOf name) : n ∈ document.reachable names := by
  refine mem_reach_of_mem_next (fun m => spreadsOf_subset_findable) ?_
    (nodup_appendNew List.nodup_nil names) subset_findable ?_ hname hn
  · intro i m hi
    omega
  · rw [Nat.zero_add]
    exact length_findable_lt

end Document

end RemoteNodes
