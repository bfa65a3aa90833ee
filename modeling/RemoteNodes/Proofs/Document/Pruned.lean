import Mathlib.Tactic
import RemoteNodes.Proofs.Document.BreadthFirst
/-!
Pruning leaves what is needed and nothing else, whatever the graph of spreads looks like.

* `Document.Needs`: operations are needed, and the fragments that operations lead to.
* `Document.pruned_eq`: with distinct names, pruning leaves what is needed.
  `Document.pruned_pruned`: pruning twice is pruning once.
* `Document.removeUnused_exact`: **pruning comes to an end, fails exactly if an operation has no
  name, and otherwise leaves what is needed**.
-/

namespace RemoteNodes.Document

open Relation

variable {document : Document}

/-- Operations are needed, and so are the fragments that an operation leads to along spreads. -/
def Needs (document : Document) : Definition → Prop
  | .operation _ => True
  | .fragment f => document.Reaches f.name
  | .schema _ | .type _ | .directive _ => False

lemma removeUnused_eq_error_iff :
    document.removeUnused = .error (.configuration .unnamedQuery)
      ↔ ∃ o ∈ document.operations, o.name? = none := by
  have hnamed : document.allNamed = true ↔ ¬ ∃ o ∈ document.operations, o.name? = none := by
    rw [allNamed, List.all_eq_true]
    push Not
    exact forall₂_congr fun o _ => Option.isSome_iff_ne_none
  rw [removeUnused]
  split
  · rename_i h
    exact iff_of_false (by simp) (hnamed.mp h)
  · rename_i h
    exact iff_of_true rfl (by_contra fun hnone => h (hnamed.mpr hnone))

/-- Operations that all have names have distinct ones if no name comes twice. -/
lemma nodup_map_name? (hall : document.allNamed = true)
    (hnames : (document.operations.filterMap (·.name?)).Nodup) :
    (document.operations.map (·.name?)).Nodup := by
  have hfilter : (document.operations.map (·.name?)).filter (·.isSome)
      = document.operations.map (·.name?) := by
    rw [List.filter_eq_self]
    exact List.forall_mem_map.mpr (List.all_eq_true.mp hall)
  rw [← hfilter, ← List.map_filterMap_some_eq_filter_map_isSome]
  exact hnames.map (Option.some_injective _)

section Distinct

variable (hunique : (document.operations.map (·.name?)).Nodup)
  (hfragments : document.fragmentNames.Nodup)
include hunique hfragments

open Classical in
/-- With distinct names, pruning leaves what is needed. -/
theorem pruned_eq : document.pruned = document.filter fun d => decide (document.Needs d) := by
  refine List.filter_congr fun d _ => Bool.eq_iff_iff.mpr ?_
  rw [decide_eq_true_iff]
  cases d with
  | operation _ => exact iff_of_true rfl trivial
  | fragment f =>
      rw [List.contains_iff_mem]
      exact mem_used_iff_reaches hunique hfragments
  | schema _ | type _ | directive _ => exact iff_of_false Bool.false_ne_true id

open Classical in
/-- Pruning twice is pruning once. -/
theorem pruned_pruned : document.pruned.pruned = document.pruned := by
  have hunique' : (document.pruned.operations.map (·.name?)).Nodup := by rwa [operations_pruned]
  have hfragments' : document.pruned.fragmentNames.Nodup := by
    rw [fragmentNames, fragments_pruned]
    exact hfragments.sublist (List.filter_sublist.map _)
  rw [pruned_eq hunique' hfragments', List.filter_eq_self]
  intro d hd
  rw [decide_eq_true_iff]
  cases d with
  | operation o => trivial
  | fragment f =>
      exact reaches_of_mem_pruned (List.mem_filterMap.mpr ⟨.fragment f, hd, rfl⟩)
  | schema _ | type _ | directive _ => exact absurd (List.mem_filter.mp hd).2 Bool.false_ne_true

end Distinct

open Classical in
/-- Pruning of documents with distinct names of operations and fragments, whatever their spreads:
the walk from each operation comes to an end. Pruning fails exactly if an operation has no name.
Otherwise all operations are left, in their order with the fragments that an operation leads to by
one spread or more, and nothing else; pruning what is left leaves all of it. -/
theorem removeUnused_exact (document : Document)
    (hnames : (document.operations.filterMap (·.name?)).Nodup)
    (hfragments : document.fragmentNames.Nodup) :
    (∀ o ∈ document.operations, WalksTo document.spreadsOf (spreadNamesIn o.selections)
        (document.reachable (spreadNamesIn o.selections)))
      ∧ (document.removeUnused = .error (.configuration .unnamedQuery)
        ↔ ∃ o ∈ document.operations, o.name? = none)
      ∧ ((∀ o ∈ document.operations, o.name? ≠ none) → ∃ result,
        document.removeUnused = .ok result
          ∧ result = document.filter (fun d => decide (document.Needs d))
          ∧ result.removeUnused = .ok result) := by
  refine ⟨fun o _ => document.walksTo_reachable _, removeUnused_eq_error_iff, fun hnamed => ?_⟩
  have hall : document.allNamed = true :=
    List.all_eq_true.mpr fun o ho => Option.isSome_iff_ne_none.mpr (hnamed o ho)
  have hunique := nodup_map_name? hall hnames
  refine ⟨document.pruned, removeUnused_eq_ok.mpr ⟨hall, rfl⟩, pruned_eq hunique hfragments, ?_⟩
  refine removeUnused_eq_ok.mpr ⟨?_, pruned_pruned hunique hfragments⟩
  rwa [allNamed, operations_pruned]

/-! ### A document with cycles -/

/-- A fragment that spreads others. -/
def spreading (name : String) (spreads : List String) : Definition :=
  .fragment {
    name
    condition := "Foo"
    selections := .plain "id" :: spreads.map (Selection.spread · []) }

/-- An operation that spreads fragments inside a field. -/
def entering (name : String) (spreads : List String) : Definition :=
  .operation {
    kind := .query
    name? := some name
    variableDefinitions := []
    directives := []
    selections := [.plain "foo" (some (spreads.map (Selection.spread · [])))] }

/-- Two fragments that spread each other and one that is missing, and one that spreads itself and
that no operation leads to. -/
def cyclicDocument : Document := [
  spreading "Tail" ["Head", "Missing"],
  spreading "Loop" ["Loop", "Head"],
  entering "NODE_Foo" ["Head"],
  spreading "Head" ["Tail"],
  entering "LIST_Foo" []]

/-- What operations and what they lead to are in it. -/
def cyclicDocumentLeft : Document := [
  spreading "Tail" ["Head", "Missing"],
  entering "NODE_Foo" ["Head"],
  spreading "Head" ["Tail"],
  entering "LIST_Foo" []]

open Classical in
/-- Of the fragments those that spread each other are left. -/
theorem removeUnused_exact_cyclic :
    cyclicDocument.removeUnused = .ok cyclicDocumentLeft
      ∧ cyclicDocument.Needs (spreading "Tail" ["Head", "Missing"])
      ∧ ¬ cyclicDocument.Needs (spreading "Loop" ["Loop", "Head"])
      ∧ cyclicDocumentLeft.removeUnused = .ok cyclicDocumentLeft := by
  obtain ⟨-, -, hleft⟩ := removeUnused_exact cyclicDocument (by decide) (by decide)
  obtain ⟨result, hresult, heq, hagain⟩ := hleft (by decide)
  have hpruned : cyclicDocument.removeUnused = .ok cyclicDocumentLeft := rfl
  obtain rfl := Except.ok.inj (hresult.symm.trans hpruned)
  have hneeds {d : Definition} (hd : d ∈ cyclicDocument) :
      cyclicDocument.Needs d ↔ d ∈ cyclicDocumentLeft := by
    rw [heq, List.mem_filter, decide_eq_true_iff]
    exact (and_iff_right hd).symm
  refine ⟨hpruned, (hneeds ?_).mpr ?_, fun h => ?_, hagain⟩
  · simp [cyclicDocument]
  · simp [cyclicDocumentLeft]
  · have hmem := (hneeds (by simp [cyclicDocument])).mp h
    simp [cyclicDocumentLeft, spreading, entering] at hmem

end RemoteNodes.Document
