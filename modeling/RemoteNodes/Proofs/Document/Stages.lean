import Mathlib.Tactic
import RemoteNodes.Document.Compile
import RemoteNodes.Proofs.Selection.Rule
/-!
What the stages of compiling do to the operations and fragments of a document.

* `Document.mapParts`: operations and fragments changed one by one; `Document.rewrite_eq`,
  `Document.addSpreads_eq`, `Document.withVariables`: the stages that are of this form.
* `Document.pruned`, `Document.removeUnused_eq_ok`: pruning, by the names within reach.
* `Document.fragments_removeFragments`, `Document.operations_removeFragments`: taking fragments out.
* `Document.Obeys.rewrite`, `Document.Obeys.addSpreads`: rules kept by the stages.
-/

namespace RemoteNodes

/-- A definition with its operation or fragment changed. -/
def Definition.mapParts (g : Operation → Operation) (h : Fragment → Fragment) :
    Definition → Definition
  | .operation o => .operation (g o)
  | .fragment f => .fragment (h f)
  | definition => definition

namespace Document

variable {document : Document} {schema : Schema}

/-- A document with its operations and fragments changed one by one. -/
def mapParts (g : Operation → Operation) (h : Fragment → Fragment) (document : Document) :
    Document :=
  document.map (Definition.mapParts g h)

/-- The names of the fragments that are defined. -/
def fragmentNames (document : Document) : List String := document.fragments.map (·.name)

lemma mem_spreadNames {name : String} :
    name ∈ document.spreadNames ↔ (∃ o ∈ document.operations, name ∈ spreadNamesIn o.selections)
      ∨ ∃ f ∈ document.fragments, name ∈ spreadNamesIn f.selections := by
  rw [spreadNames, List.mem_append, List.mem_flatMap, List.mem_flatMap]

@[simp] lemma fragments_append (first second : Document) :
    fragments (first ++ second) = first.fragments ++ second.fragments := List.filterMap_append

@[simp] lemma operations_append (first second : Document) :
    operations (first ++ second) = first.operations ++ second.operations := List.filterMap_append

@[simp] lemma fragments_map_fragment (fs : List Fragment) :
    fragments (fs.map Definition.fragment) = fs := by
  rw [fragments, List.filterMap_map]
  exact List.filterMap_some

@[simp] lemma operations_map_fragment (fs : List Fragment) :
    operations (fs.map Definition.fragment) = [] := by
  rw [operations, List.filterMap_map]
  exact List.filterMap_eq_nil_iff.mpr fun f _ => rfl

section MapParts

variable (g : Operation → Operation) (h : Fragment → Fragment)

@[simp] lemma fragments_mapParts (document : Document) :
    (document.mapParts g h).fragments = document.fragments.map h := by
  rw [fragments, fragments, mapParts, List.filterMap_map, List.map_filterMap]
  refine List.filterMap_congr fun definition _ => ?_
  cases definition <;> rfl

@[simp] lemma operations_mapParts (document : Document) :
    (document.mapParts g h).operations = document.operations.map g := by
  rw [operations, operations, mapParts, List.filterMap_map, List.map_filterMap]
  refine List.filterMap_congr fun definition _ => ?_
  cases definition <;> rfl

/-- A rule that all changes keep is kept. -/
lemma Obeys.mapParts {rule : SelectionRule} {g : Operation → Operation} {h : Fragment → Fragment}
    (hdocument : document.Obeys rule)
    (hg : ∀ o, SetObeys rule o.selections → SetObeys rule (g o).selections)
    (hh : ∀ f, SetObeys rule f.selections → SetObeys rule (h f).selections) :
    (document.mapParts g h).Obeys rule := by
  refine ⟨fun o ho => ?_, fun f hf => ?_⟩
  · rw [operations_mapParts] at ho
    obtain ⟨o', ho', rfl⟩ := List.mem_map.mp ho
    exact hg o' (hdocument.1 o' ho')
  · rw [fragments_mapParts] at hf
    obtain ⟨f', hf', rfl⟩ := List.mem_map.mp hf
    exact hh f' (hdocument.2 f' hf')

end MapParts

/-! ### Rewriting and spreading -/

lemma rewrite_eq (r : Rewriting) :
    document.rewrite schema r = document.mapParts (·.rewrite schema r) (·.rewrite schema r) := by
  refine List.map_congr_left fun definition _ => ?_
  cases definition <;> rfl

lemma addSpreads_eq (type : String) (names : List String) :
    document.addSpreads schema type names
      = document.mapParts (·.rewrite schema (spreadRewriting schema type names)) id := by
  refine List.map_congr_left fun definition _ => ?_
  cases definition <;> rfl

lemma Obeys.rewrite {rule : SelectionRule} {r : Rewriting} (h : document.Obeys rule)
    (hr : r.Keeps rule) : (document.rewrite schema r).Obeys rule := by
  rw [rewrite_eq]
  exact h.mapParts (fun o => Operation.setObeys_rewrite hr) fun f => Fragment.setObeys_rewrite hr

lemma Obeys.addSpreads {rule : SelectionRule} {type : String} {names : List String}
    (h : document.Obeys rule) (hnames : ∀ name ∈ names, rule.names name) :
    (document.addSpreads schema type names).Obeys rule := by
  rw [addSpreads_eq]
  exact h.mapParts (fun o => Operation.setObeys_rewrite (keeps_spreadRewriting hnames)) fun f => id

/-- The document with all used variables declared, without the warnings. -/
def withVariables (document : Document) (schema : Schema) : Document :=
  document.mapParts (fun o => { o with
    variableDefinitions := o.variableDefinitions ++ document.missingVariables schema o }) id

lemma outcome_declareVariables (document : Document) (schema : Schema) :
    (document.declareVariables schema).outcome = .ok (document.withVariables schema) := by
  refine congrArg Except.ok (List.map_congr_left fun definition _ => ?_)
  cases definition <;> rfl

lemma Obeys.withVariables {rule : SelectionRule} (h : document.Obeys rule) :
    (document.withVariables schema).Obeys rule :=
  h.mapParts (fun _ => id) fun _ => id

/-! ### Pruning -/

/-- The names within reach of the operations. Of operations with one name the last one counts. -/
def used (document : Document) : List String :=
  document.operations.flatMap fun o =>
    document.reachable (spreadNamesIn (document.lastOperation o).selections)

/-- The operations and the fragments within their reach. -/
def pruned (document : Document) : Document :=
  document.filter fun
    | .operation _ => true
    | .fragment f => document.used.contains f.name
    | _ => false

lemma removeUnused_eq_ok {result : Document} :
    document.removeUnused = .ok result ↔ document.allNamed = true ∧ document.pruned = result := by
  rw [removeUnused]
  split
  · rename_i hnamed
    rw [Except.ok.injEq]
    exact ⟨fun h => ⟨hnamed, h⟩, And.right⟩
  · rename_i hnamed
    simp [hnamed]

@[simp] lemma fragments_pruned (document : Document) :
    document.pruned.fragments
      = document.fragments.filter fun f => document.used.contains f.name := by
  rw [fragments, fragments, pruned, List.filterMap_filter, List.filter_filterMap]
  refine List.filterMap_congr fun definition _ => ?_
  cases definition with
  | fragment f => simp [Definition.fragment?, Option.filter_some]
  | operation _ | schema _ | type _ | directive _ => rfl

@[simp] lemma operations_pruned (document : Document) :
    document.pruned.operations = document.operations := by
  rw [operations, operations, pruned, List.filterMap_filter]
  refine List.filterMap_congr fun definition _ => ?_
  cases definition with
  | fragment f => simp [Definition.operation?]
  | operation _ | schema _ | type _ | directive _ => rfl

/-! ### Taking fragments out -/

lemma dropSpreadsIn_nil (ss : List Selection) : dropSpreadsIn [] ss = ss := by
  have hone (s : Selection) : s.dropSpreads? [] = some s := by
    induction s using Selection.induct with
    | leaf alias? name arguments directives => rfl
    | composite alias? name arguments directives ss ih =>
        rw [Selection.dropSpreads?, dropSpreadsIn_eq_filterMap,
          List.filterMap_congr ih, List.filterMap_some]
    | spread fragment directives => rfl
    | inline condition? directives ss ih =>
        rw [Selection.dropSpreads?, dropSpreadsIn_eq_filterMap,
          List.filterMap_congr ih, List.filterMap_some]
  rw [dropSpreadsIn_eq_filterMap, List.filterMap_congr fun s _ => hone s, List.filterMap_some]

/-- The fragments that are left have lost the spreads of those that are not. -/
lemma fragments_removeFragments (names : List String) :
    (document.removeFragments names).fragments
      = (document.fragments.filter fun f => !names.contains f.name).map
        fun f => { f with selections := dropSpreadsIn names f.selections } := by
  rw [removeFragments]
  split
  · rename_i hnames
    rw [List.isEmpty_iff] at hnames
    subst hnames
    simp [dropSpreadsIn_nil]
  · rw [fragments, fragments, List.filterMap_filterMap, List.filter_filterMap, List.map_filterMap]
    refine List.filterMap_congr fun definition _ => ?_
    cases definition with
    | fragment f =>
        by_cases h : names.contains f.name = true
        · simp [Definition.fragment?, -List.contains_eq_mem, h]
        · simp [Definition.fragment?, -List.contains_eq_mem, h]
    | operation _ | schema _ | type _ | directive _ => rfl

lemma operations_removeFragments (names : List String) :
    (document.removeFragments names).operations
      = document.operations.map
        fun o => { o with selections := dropSpreadsIn names o.selections } := by
  rw [removeFragments]
  split
  · rename_i hnames
    rw [List.isEmpty_iff] at hnames
    subst hnames
    simp [dropSpreadsIn_nil]
  · rw [operations, operations, List.filterMap_filterMap, List.map_filterMap]
    refine List.filterMap_congr fun definition _ => ?_
    cases definition with
    | fragment f =>
        by_cases h : names.contains f.name = true
        · simp [Definition.operation?, -List.contains_eq_mem, h]
        · simp [Definition.operation?, -List.contains_eq_mem, h]
    | operation _ | schema _ | type _ | directive _ => rfl

/-- What is spread afterwards was spread before and is not one of the fragments taken out. -/
lemma mem_spreadNames_removeFragments {names : List String} {name : String}
    (h : name ∈ (document.removeFragments names).spreadNames) :
    name ∈ document.spreadNames ∧ name ∉ names := by
  rw [mem_spreadNames, operations_removeFragments, fragments_removeFragments] at h
  rw [mem_spreadNames]
  rcases h with ⟨o', ho', hname⟩ | ⟨f', hf', hname⟩
  · obtain ⟨o, ho, rfl⟩ := List.mem_map.mp ho'
    simp only [spreadNamesIn_dropSpreadsIn, List.mem_filter] at hname
    exact ⟨.inl ⟨o, ho, hname.1⟩, by simpa using hname.2⟩
  · obtain ⟨f, hf, rfl⟩ := List.mem_map.mp hf'
    simp only [spreadNamesIn_dropSpreadsIn, List.mem_filter] at hname
    exact ⟨.inr ⟨f, (List.mem_filter.mp hf).1, hname.1⟩, by simpa using hname.2⟩

end Document

end RemoteNodes
