import Mathlib.Tactic
import RemoteNodes.Node.Identity
import RemoteNodes.Proofs.Fault
/-!
What an ID fragment picks out of a node, found in a selection set.

* `Selection.PickedFrom`: what a selection picks is selected in a set; `selectionsOn`: what a set
  selects on objects of a type.
* `Selection.Answered`: an object has a value for what a selection selects.
* `Fragment.exists_pickId`: **if a set selects all that an ID fragment picks, then every node that
  answers the set is identified**.
-/

namespace RemoteNodes

open Selection (responseKey)

mutual
/-- What a selection picks out of a node is selected in a set: at every level under the same key,
with the same name and arguments. Below the top level (`nested`) no type name is picked. -/
def Selection.PickedFrom (nested : Bool) (given : List Selection) : Selection → Prop
  | .field alias? name arguments _ none =>
    (nested = true ∧ name = "__typename") ∨
      ∃ alias?' directives selections?,
        .field alias?' name arguments directives selections? ∈ given
          ∧ responseKey alias?' name = responseKey alias? name
  | .field alias? name arguments _ (some selections) =>
    (nested = true ∧ name = "__typename") ∨
      ∃ alias?' directives within,
        .field alias?' name arguments directives (some within) ∈ given
          ∧ responseKey alias?' name = responseKey alias? name ∧ AllPickedFrom within selections
  | .spread .. => True
  | .inline .. => True
/-- What selections below the top level pick is selected in a set. -/
def AllPickedFrom (given : List Selection) : List Selection → Prop
  | [] => True
  | s :: ss => s.PickedFrom true given ∧ AllPickedFrom given ss
end

/-- The selections that a set makes on objects of a type right away: its own, and those in its parts
on the type. -/
def selectionsOn (type : String) (ss : List Selection) : List Selection :=
  ss ++ ss.flatMap fun
    | .inline condition? _ selections => if condition? = some type then selections else []
    | _ => []

variable {type : String} {nested : Bool} {given given' ss : List Selection} {s : Selection}

lemma allPickedFrom_iff : AllPickedFrom given ss ↔ ∀ s ∈ ss, s.PickedFrom true given := by
  induction ss with
  | nil => simp [AllPickedFrom]
  | cons s ss ih => rw [AllPickedFrom, ih, List.forall_mem_cons]

lemma Selection.PickedFrom.mono (h : s.PickedFrom nested given) (hsub : given ⊆ given') :
    s.PickedFrom nested given' := by
  cases s with
  | field alias? name arguments directives selections? =>
      cases selections? with
      | none =>
          rw [PickedFrom] at h ⊢
          exact h.imp_right fun ⟨a, d, ss, hs, hkey⟩ => ⟨a, d, ss, hsub hs, hkey⟩
      | some selections =>
          rw [PickedFrom] at h ⊢
          exact h.imp_right fun ⟨a, d, ss, hs, hrest⟩ => ⟨a, d, ss, hsub hs, hrest⟩
  | spread _ _ | inline _ _ _ => rw [PickedFrom]; trivial

lemma subset_selectionsOn (type : String) (ss : List Selection) : ss ⊆ selectionsOn type ss :=
  List.subset_append_left _ _

lemma subset_selectionsOn_of_part {directives : List Directive}
    (h : .inline (some type) directives given ∈ ss) : given ⊆ selectionsOn type ss := by
  intro s hs
  exact List.mem_append_right _ (List.mem_flatMap.mpr ⟨_, h, by simpa using hs⟩)

/-! ### Nodes that answer a set -/

mutual
/-- An object has a value under the key of a selection, and inside it for what is selected there. -/
def Selection.Answered (fields : Keyed Json) : Selection → Prop
  | .field alias? name _ _ none =>
    (Keyed.get? fields (responseKey alias? name)).getD .null ≠ .null
  | .field alias? name _ _ (some selections) => ∃ inner,
    Keyed.get? fields (responseKey alias? name) = some (.obj inner) ∧ AllAnswered inner selections
  | .spread .. => True
  | .inline .. => True
/-- An object has values for all selections. -/
def AllAnswered (fields : Keyed Json) : List Selection → Prop
  | [] => True
  | s :: ss => s.Answered fields ∧ AllAnswered fields ss
end

lemma allAnswered_iff {fields : Keyed Json} :
    AllAnswered fields ss ↔ ∀ s ∈ ss, s.Answered fields := by
  induction ss with
  | nil => simp [AllAnswered]
  | cons s ss ih => rw [AllAnswered, ih, List.forall_mem_cons]

lemma exists_pickEach {fields : Keyed Json}
    (h : ∀ s ∈ ss, ∃ picked?, pickOne nested fields s = .ok picked?) :
    ∃ picked, pickEach nested fields ss = .ok picked := by
  induction ss with
  | nil => exact ⟨[], rfl⟩
  | cons s ss ih =>
      rw [List.forall_mem_cons] at h
      obtain ⟨first?, hfirst⟩ := h.1
      obtain ⟨rest, hrest⟩ := ih h.2
      exact ⟨first?.toList ++ rest, bind_eq_ok.mpr ⟨_, hfirst, bind_eq_ok.mpr ⟨_, hrest, rfl⟩⟩⟩

/-- A selection that is picked from a set picks from each object that answers the set. -/
lemma exists_pickOne {fields : Keyed Json} (h : s.PickedFrom nested given)
    (hanswered : AllAnswered fields given) : ∃ picked?, pickOne nested fields s = .ok picked? := by
  induction s using Selection.induct generalizing nested given fields with
  | leaf alias? name arguments directives =>
      rw [pickOne]
      split
      · exact ⟨_, rfl⟩
      · rename_i hother
        rw [Selection.PickedFrom] at h
        obtain ⟨alias?', directives', selections?, hmem, hkey⟩ :=
          h.resolve_left (by simpa using hother)
        have hvalue := allAnswered_iff.mp hanswered _ hmem
        have hne : (Keyed.get? fields (responseKey alias? name)).getD .null ≠ .null := by
          rw [← hkey]
          cases selections? with
          | none => rwa [Selection.Answered] at hvalue
          | some within =>
              rw [Selection.Answered] at hvalue
              obtain ⟨inner, hget, -⟩ := hvalue
              simp [hget]
        dsimp only
        split
        · rename_i hnull
          exact absurd hnull hne
        · exact ⟨_, rfl⟩
  | composite alias? name arguments directives ss ih =>
      rw [pickOne]
      split
      · exact ⟨_, rfl⟩
      · rename_i hother
        rw [Selection.PickedFrom] at h
        obtain ⟨alias?', directives', within, hmem, hkey, hwithin⟩ :=
          h.resolve_left (by simpa using hother)
        have hvalue := allAnswered_iff.mp hanswered _ hmem
        rw [Selection.Answered, hkey] at hvalue
        obtain ⟨inner, hget, hinner⟩ := hvalue
        obtain ⟨picked, hpicked⟩ := exists_pickEach fun s hs =>
          ih s hs (allPickedFrom_iff.mp hwithin s hs) hinner
        dsimp only
        rw [hget]
        exact ⟨_, bind_eq_ok.mpr ⟨_, hpicked, rfl⟩⟩
  | spread fragment directives => exact ⟨_, rfl⟩
  | inline condition? directives ss => exact ⟨_, rfl⟩

/-- **A node is identified by what it answers**: if a set selects all that an ID fragment picks,
the fragment picks from every node that answers the set. -/
theorem Fragment.exists_pickId {f : Fragment} {fields : Keyed Json}
    (h : ∀ s ∈ f.selections, s.PickedFrom false given) (hanswered : AllAnswered fields given) :
    ∃ picked, f.pickId (.obj fields) = .ok picked := by
  obtain ⟨picked, hpicked⟩ := exists_pickEach fun s hs => exists_pickOne (h s hs) hanswered
  exact ⟨Keyed.ofPairs picked, by rw [pickId, hpicked]; rfl⟩

end RemoteNodes
