import Mathlib.Tactic
import RemoteNodes.Proofs.Document.Compilation
import RemoteNodes.Proofs.Selection.Preserved
/-!
What compiling a document keeps of the operations that it starts from.

* `Operation.Preserved`, `Definition.Preserved`: a definition with everything it says, but for
  selections and variables that are put in.
* `Document.Rewritten`: a document in which each definition has been replaced by one that preserves
  it; `rewritten_assemble`: the stages that go over definitions one by one.
* `Document.removeFragments_pruned`: the stages that leave definitions out.
* `compileDocument_preserves`: **operations stay, in their order, with all that their authors
  wrote**.
-/

namespace RemoteNodes

open scoped List

/-- An operation becomes another one within an allowance: it gets more variables, and its selections
are preserved. -/
structure Operation.Preserved (w : Allowance) (o o' : Operation) : Prop where
  description : o'.description? = o.description?
  kind : o'.kind = o.kind
  name : o'.name? = o.name?
  directives : o'.directives = o.directives
  declared : o.variableDefinitions <+: o'.variableDefinitions
  selections : w.Preserves o.selections o'.selections

/-- A fragment becomes another one within an allowance. -/
structure Fragment.Preserved (w : Allowance) (f f' : Fragment) : Prop where
  description : f'.description? = f.description?
  name : f'.name = f.name
  condition : f'.condition = f.condition
  directives : f'.directives = f.directives
  selections : w.Preserves f.selections f'.selections

/-- An operation or a fragment becomes another one within an allowance. -/
inductive Definition.Preserved (w : Allowance) : Definition → Definition → Prop
  | operation {o o'} (h : o.Preserved w o') : Preserved w (.operation o) (.operation o')
  | fragment {f f'} (h : f.Preserved w f') : Preserved w (.fragment f) (.fragment f')

section Preserved

variable {w : Allowance} {schema : Schema}

lemma Operation.Preserved.trans {o o' o'' : Operation} (h : o.Preserved w o')
    (h' : o'.Preserved w o'') : o.Preserved w o'' where
  description := h'.description.trans h.description
  kind := h'.kind.trans h.kind
  name := h'.name.trans h.name
  directives := h'.directives.trans h.directives
  declared := h.declared.trans h'.declared
  selections := h.selections.trans h'.selections

lemma Fragment.Preserved.trans {f f' f'' : Fragment} (h : f.Preserved w f')
    (h' : f'.Preserved w f'') : f.Preserved w f'' where
  description := h'.description.trans h.description
  name := h'.name.trans h.name
  condition := h'.condition.trans h.condition
  directives := h'.directives.trans h.directives
  selections := h.selections.trans h'.selections

lemma Operation.preserved_of_selections (o : Operation) {ss : List Selection}
    (h : w.Preserves o.selections ss) : o.Preserved w { o with selections := ss } :=
  ⟨rfl, rfl, rfl, rfl, List.prefix_refl _, h⟩

lemma Fragment.preserved_of_selections (f : Fragment) {ss : List Selection}
    (h : w.Preserves f.selections ss) : f.Preserved w { f with selections := ss } :=
  ⟨rfl, rfl, rfl, rfl, h⟩

lemma Allowance.Allows.preserved_operation {r : Rewriting} (hr : w.Allows r) (o : Operation) :
    o.Preserved w (o.rewrite schema r) :=
  o.preserved_of_selections ((hr.preserves_rewriteAll _ _).trans (hr.set _ _ _))

lemma Allowance.Allows.preserved_fragment {r : Rewriting} (hr : w.Allows r) (f : Fragment) :
    f.Preserved w (f.rewrite schema r) :=
  f.preserved_of_selections ((hr.preserves_rewriteAll _ _).trans (hr.set _ _ _))

end Preserved

namespace Document

variable {w : Allowance} {schema : Schema} {document document' document'' : Document}

/-! ### Definitions that are rewritten -/

/-- A document with its operations and fragments rewritten one by one, so that all are preserved. -/
def Rewritten (w : Allowance) (document document' : Document) : Prop :=
  ∃ g h, document.mapParts g h = document' ∧ (∀ o : Operation, o.Preserved w (g o))
    ∧ ∀ f : Fragment, f.Preserved w (h f)

lemma Rewritten.trans (h : document.Rewritten w document') (h' : document'.Rewritten w document'') :
    document.Rewritten w document'' := by
  obtain ⟨g₁, h₁, rfl, hoperations₁, hfragments₁⟩ := h
  obtain ⟨g₂, h₂, rfl, hoperations₂, hfragments₂⟩ := h'
  refine ⟨fun o => g₂ (g₁ o), fun f => h₂ (h₁ f), ?_,
    fun o => (hoperations₁ o).trans (hoperations₂ _),
    fun f => (hfragments₁ f).trans (hfragments₂ _)⟩
  rw [mapParts, mapParts, mapParts, List.map_map]
  refine List.map_congr_left fun definition _ => ?_
  cases definition <;> rfl

lemma rewritten_rewrite {r : Rewriting} (hr : w.Allows r) :
    document.Rewritten w (document.rewrite schema r) :=
  ⟨_, _, (rewrite_eq r).symm, hr.preserved_operation, hr.preserved_fragment⟩

lemma rewritten_addSpreads (type : String) :
    document.Rewritten w (document.addSpreads schema type w.added) :=
  ⟨_, _, (addSpreads_eq type w.added).symm,
    (w.allows_spreadRewriting schema type).preserved_operation,
    fun f => f.preserved_of_selections (.refl _)⟩

lemma rewritten_withVariables : document.Rewritten w (document.withVariables schema) :=
  ⟨_, _, rfl, fun _ => ⟨rfl, rfl, rfl, rfl, List.prefix_append _ _, .refl _⟩,
    fun f => f.preserved_of_selections (.refl _)⟩

/-- The stages up to the declaration of variables preserve every definition. -/
lemma rewritten_assemble {declarations : List NodeDeclaration} {type : String} {queries : Document}
    {nodeFragments otherFragments : List Fragment} (hadded : w.added = nodeFragments.map (·.name)) :
    Rewritten w (queries ++ (nodeFragments ++ otherFragments).map .fragment)
      (assemble schema declarations w.aliases type queries nodeFragments otherFragments) := by
  rw [assemble, ← hadded]
  exact (((rewritten_addSpreads type).trans (rewritten_rewrite w.allows_typenameRewriting)).trans
    (rewritten_rewrite (w.allows_aliasRewriting schema _))).trans rewritten_withVariables

/-! ### Definitions that are left out -/

/-- Whether a definition stays: it is an operation, or a fragment that is used and not removed. -/
def stays (used removed : List String) : Definition → Bool
  | .operation _ => true
  | .fragment f => used.contains f.name && !removed.contains f.name
  | _ => false

/-- All operations stay. -/
lemma operations_filter_stays (used removed : List String) :
    operations (document.filter (stays used removed)) = document.operations := by
  rw [operations, operations, List.filterMap_filter]
  refine List.filterMap_congr fun definition _ => ?_
  cases definition with
  | fragment f => simp [Definition.operation?]
  | operation _ | schema _ | type _ | directive _ => rfl

/-- Which fragments stay is a matter of their names. -/
lemma filter_stays_mapParts {g : Operation → Operation} {h : Fragment → Fragment}
    (hname : ∀ f, (h f).name = f.name) (used removed : List String) :
    (document.mapParts g h).filter (stays used removed)
      = mapParts g h (document.filter (stays used removed)) := by
  rw [mapParts, mapParts, List.filter_map]
  refine congrArg _ (List.filter_congr fun definition _ => ?_)
  cases definition with
  | fragment f => simp [stays, Definition.mapParts, hname]
  | operation _ | schema _ | type _ | directive _ => rfl

/-- A document without spreads of some fragments. -/
def withoutSpreads (removed : List String) (document : Document) : Document :=
  document.mapParts (fun o => { o with selections := dropSpreadsIn removed o.selections })
    fun f => { f with selections := dropSpreadsIn removed f.selections }

lemma rewritten_withoutSpreads : document.Rewritten w (document.withoutSpreads w.removed) :=
  ⟨_, _, rfl, fun o => o.preserved_of_selections (w.preserves_dropSpreadsIn _),
    fun f => f.preserved_of_selections (w.preserves_dropSpreadsIn _)⟩

/-- Fragments that are taken out leave the others, without spreads of them. -/
lemma removeFragments_pruned (removed : List String) :
    document.pruned.removeFragments removed
      = (document.withoutSpreads removed).filter (stays document.used removed) := by
  rw [withoutSpreads, filter_stays_mapParts (by exact fun f => rfl), removeFragments, pruned,
    mapParts]
  split
  · rename_i hnone
    rw [List.isEmpty_iff] at hnone
    subst hnone
    rw [List.map_id'' fun definition => ?_]
    · refine List.filter_congr fun definition _ => ?_
      cases definition <;> simp [stays]
    · cases definition <;> simp [Definition.mapParts, dropSpreadsIn_nil]
  · rw [List.filterMap_filter, ← List.filterMap_eq_map, List.filterMap_filter]
    refine List.filterMap_congr fun definition _ => ?_
    cases definition with
    | fragment f =>
        by_cases hused : f.name ∈ document.used
        · by_cases hremoved : f.name ∈ removed <;>
            simp [stays, Definition.mapParts, hused, hremoved]
        · simp [stays, hused]
    | operation _ | schema _ | type _ | directive _ => simp [stays, Definition.mapParts]

/-- Definitions that stay are preserved when they are rewritten. -/
lemma Rewritten.forall₂ (h : document.Rewritten w document') (used removed : List String) :
    List.Forall₂ (Definition.Preserved w) (document.filter (stays used removed))
      (document'.filter (stays used removed)) := by
  obtain ⟨g, h, rfl, hoperations, hfragments⟩ := h
  rw [filter_stays_mapParts (fun f => (hfragments f).name), mapParts, List.forall₂_map_right_iff,
    List.forall₂_same]
  intro definition hdefinition
  have hstays := (List.mem_filter.mp hdefinition).2
  cases definition with
  | operation o => exact .operation (hoperations o)
  | fragment f => exact .fragment (hfragments f)
  | schema _ | type _ | directive _ => simp [stays] at hstays

/-- Definitions that are preserved one by one have their operations preserved one by one. -/
lemma forall₂_operations (h : List.Forall₂ (Definition.Preserved w) document document') :
    List.Forall₂ (Operation.Preserved w) document.operations document'.operations := by
  induction h with
  | nil => exact .nil
  | cons hfirst _ ih =>
      cases hfirst with
      | operation h => exact .cons h ih
      | fragment _ => exact ih

/-- What is left of a rewritten document of three parts, after unused and removed fragments have
gone. -/
lemma Rewritten.removeFragments_pruned {queries result : Document}
    {nodeFragments otherFragments : List Fragment}
    (h : Rewritten w (queries ++ (nodeFragments ++ otherFragments).map .fragment) document)
    (hresult : document.pruned.removeFragments w.removed = result) :
    (∀ f ∈ result.fragments, f.name ∉ w.removed)
      ∧ List.Forall₂ (Operation.Preserved w) queries.operations result.operations
      ∧ ∃ own node other : Document, own <+ queries ∧ node <+ nodeFragments.map .fragment
        ∧ other <+ otherFragments.map .fragment
        ∧ List.Forall₂ (Definition.Preserved w) (own ++ node ++ other) result := by
  have hall := (h.trans rewritten_withoutSpreads).forall₂ document.used w.removed
  rw [← Document.removeFragments_pruned, hresult] at hall
  let keep := stays document.used w.removed
  refine ⟨fun f hf => ?_, ?_, queries.filter keep, (nodeFragments.map .fragment).filter keep,
    (otherFragments.map .fragment).filter keep, List.filter_sublist, List.filter_sublist,
    List.filter_sublist, ?_⟩
  · rw [← hresult, fragments_removeFragments] at hf
    obtain ⟨g, hg, rfl⟩ := List.mem_map.mp hf
    simpa using (List.mem_filter.mp hg).2
  · have hoperations := forall₂_operations hall
    rwa [operations_filter_stays, operations_append, operations_map_fragment, List.append_nil]
      at hoperations
  · rwa [List.map_append, List.filter_append, List.filter_append, ← List.append_assoc] at hall

end Document

/-! ### A compiled document -/

/-- The operations of a compiled document are those of the queries, in their order: each has its
name, kind, directives and variables, with more variables behind them, and its selections but for
type names, spreads of node fragments that are put in, and spreads of repetitions of the ID fragment
that are taken out. The definitions that stay keep their order: those of the queries, those of the
node type, the others. -/
theorem compileDocument_preserves {schema : Schema} {declarations : List NodeDeclaration}
    {d : NodeDeclaration} {queries document : Document}
    {nodeFragments otherFragments : List Fragment} {aliases : Aliases} {idFragment : String}
    (hcompile : (compileDocument schema declarations d queries nodeFragments otherFragments aliases
      idFragment).outcome = .ok document) :
    ∃ reached found, reached = (assemble schema declarations aliases d.type queries nodeFragments
          otherFragments).pruned
      ∧ reached.fragments.find? (·.name == idFragment) = some found
      ∧ ∃ w : Allowance, w.aliases = aliases ∧ w.added = nodeFragments.map (·.name)
        ∧ w.removed = Document.idDuplicates schema d.type found
          (Document.otherThanFirst idFragment reached.fragments)
        ∧ (∀ f ∈ document.fragments, f.name ∉ w.removed)
        ∧ List.Forall₂ (Operation.Preserved w) queries.operations document.operations
        ∧ ∃ own node other : Document, own <+ queries ∧ node <+ nodeFragments.map .fragment
          ∧ other <+ otherFragments.map .fragment
          ∧ List.Forall₂ (Definition.Preserved w) (own ++ node ++ other) document := by
  obtain ⟨assembled, hassembled, -, found, hfound, hleft⟩ := compileDocument_eq_ok.mp hcompile
  refine ⟨assembled.pruned, found, by rw [hassembled], hfound,
    ⟨aliases, nodeFragments.map (·.name), _⟩, rfl, rfl, rfl, ?_⟩
  exact Document.Rewritten.removeFragments_pruned
    (hassembled ▸ Document.rewritten_assemble rfl) hleft

/-- An operation with a variable, and what is selected on all nodes under an alias. -/
def titledOperation (selections : List Selection) : Operation where
  kind := .query
  name? := some "LIST_Foo"
  variableDefinitions := [{ name := "n", type := .named "Int" }]
  directives := [⟨"live", []⟩]
  selections := [.field (some "all") "allFoo" [⟨"first", .variable "n"⟩] [] (some selections)]

/-- A field with an alias and a directive of its own. -/
def titleField : Selection :=
  .field (some "title") "name" [] [⟨"include", [⟨"if", .boolean true⟩]⟩] none

/-- Queries with a type name in the middle and a spread of a fragment that repeats the ID
fragment. -/
def titledQueries : Document := [
  .operation (titledOperation [titleField, .plain "__typename", .spread "Key" [],
    .spread "FooId" []]),
  .fragment fooIdFragment]

/-- The fragments of the node type. -/
def titledFragments : List Fragment := [
  { name := "Key", condition := "Foo", selections := [.plain "id"] },
  { name := "More", condition := "Foo", selections := [.plain "name"] }]

/-- The document that is compiled from them. -/
def titledDocument : Document := [
  .operation (titledOperation [.field (some "remoteTypeName") "__typename" [] [] none, titleField,
    .spread "FooId" [], .spread "More" []]),
  .fragment { fooIdFragment with selections := [.field (some "remoteId") "id" [] [] none] },
  .fragment { name := "More", condition := "Foo", selections := [.plain "name"] }]

set_option maxRecDepth 10000 in
lemma compileDocument_titled :
    (compileDocument fooSchema [fooDeclaration] fooDeclaration titledQueries titledFragments []
      defaultAliases "FooId").outcome = .ok titledDocument :=
  rfl

set_option maxRecDepth 10000 in
/-- The operation has what its author wrote, but for the type name and one spread. -/
theorem compileDocument_preserves_titled :
    ∃ w : Allowance, w.added = ["Key", "More"] ∧ w.removed = ["Key"]
      ∧ List.Forall₂ (Operation.Preserved w) titledQueries.operations
        titledDocument.operations := by
  obtain ⟨_, found, rfl, hfound, w, -, hadded, hremoved, -, hoperations, -⟩ :=
    compileDocument_preserves compileDocument_titled
  cases hfound
  exact ⟨w, hadded, hremoved, hoperations⟩

end RemoteNodes
