import Mathlib
import RemoteNodes.Proofs.Document.Compilation
import RemoteNodes.Proofs.Schema.Lawful
/-!
The documents of different node types are kept apart.

* `mem_nodeTypeNames_iff`: what belongs to a node type, the type itself and its interfaces.
* `Compilation.mem_types_or_not_mem_allTypes`: a fragment in a document is made on what belongs to
  its node type, or on what belongs to none.
* `compiled_isolated`: **no fragment that is made on another node type is in a document**.
* `pairSchema`: two node types with an interface in common.
-/

namespace RemoteNodes

/-- An interface belongs to all node types that implement it. -/
lemma mem_nodeTypeNames_iff {schema : Schema} {type name : String}
    (hobject : schema.IsObject type) :
    name ∈ nodeTypeNames schema type
      ↔ name = type ∨ ∃ t, schema.type? type = some t ∧ name ∈ t.interfaces := by
  obtain ⟨t, ht, hisObject⟩ := hobject
  have hfilter : (schema.type? type).filter (·.isObject) = some t :=
    Option.filter_eq_some_iff.mpr ⟨ht, hisObject⟩
  simp only [nodeTypeNames, hfilter, List.mem_cons]
  simp [ht]

section Isolated

variable {schema : Schema} {declarations : List NodeDeclaration} {sources : List String}
  {aliases : Aliases} {documents : Keyed Document} {type : String} {document : Document}

namespace Compilation

variable (c : Compilation schema declarations sources aliases type document)

include c in
/-- Node types are object types. -/
lemma isObject_of_mem {d : NodeDeclaration} (hd : d ∈ declarations) : schema.IsObject d.type := by
  obtain ⟨entries, hentries, -⟩ := bind_eq_ok.mp c.references_made
  exact isObject_of_typeReferences hentries hd

/-- A fragment is made on what belongs to the node type, or on what belongs to no node type. -/
lemma mem_types_or_not_mem_allTypes {f : Fragment} (hf : f ∈ document.fragments) :
    f.condition ∈ c.types ∨ f.condition ∉ c.allTypes := by
  -- the stages change neither name nor type of a fragment
  have hheader := List.mem_map_of_mem hf (f := (·.header))
  rw [c.map_header_fragments] at hheader
  obtain ⟨g, hg, hheader⟩ := List.mem_map.mp hheader
  rw [← (Fragment.header_eq_iff.mp hheader).2]
  rcases List.mem_cons.mp (List.mem_filter.mp hg).1 with rfl | hg
  · obtain ⟨index, d, hd, htype, hread⟩ := c.declared
    obtain ⟨-, -, -, -, hcondition⟩ := NodeDeclaration.read_eq_ok.mp hread
    have hobject : schema.IsObject type := htype ▸ c.isObject_of_mem (List.mem_of_getElem? hd)
    exact .inl ((mem_nodeTypeNames_iff hobject).mpr (.inl (hcondition.trans htype)))
  · rcases List.mem_append.mp hg with hg | hg
    · exact .inl (exists_of_mem_fragmentsFor c.records_usages hg).1
    · obtain ⟨-, -, -, hother⟩ := c.mem_sharedFragments.mp ⟨g, hg, rfl⟩
      exact .inr hother

end Compilation

/-- A fragment in the document of a node type is made on that type, on an interface that it
implements, or on a type that is neither a node type nor an interface of one. If only interfaces are
implemented, it is made on no other node type. -/
theorem compiled_isolated
    (hcompile : (compileQueries schema declarations sources aliases).outcome = .ok documents)
    (hdocument : Keyed.get? documents type = some document) :
    ∀ f ∈ document.fragments,
      (f.condition = type
        ∨ (∃ t, schema.type? type = some t ∧ f.condition ∈ t.interfaces)
        ∨ ∀ d ∈ declarations, f.condition ≠ d.type
          ∧ ∀ t, schema.type? d.type = some t → f.condition ∉ t.interfaces)
      ∧ ((∀ t ∈ schema.types, ∀ name ∈ t.interfaces, ¬ schema.IsObject name) →
        ∀ d ∈ declarations, f.condition = d.type → d.type = type) := by
  obtain ⟨c⟩ := exists_compilation hcompile hdocument
  obtain ⟨d₀, hd₀, htype⟩ : ∃ d ∈ declarations, d.type = type := by
    obtain ⟨index, d, hd, htype, -⟩ := c.declared
    exact ⟨d, List.mem_of_getElem? hd, htype⟩
  have hobject : schema.IsObject type := htype ▸ c.isObject_of_mem hd₀
  intro f hf
  rcases c.mem_types_or_not_mem_allTypes hf with hown | hnone
  · rcases (mem_nodeTypeNames_iff hobject).mp hown with hcondition | ⟨t, ht, hinterface⟩
    · exact ⟨.inl hcondition, fun _ d _ hd => hd.symm.trans hcondition⟩
    · refine ⟨.inr (.inl ⟨t, ht, hinterface⟩), fun hinterfaces d hd heq => ?_⟩
      exact absurd (heq ▸ c.isObject_of_mem hd)
        (hinterfaces t (Schema.mem_of_type? ht) _ hinterface)
  · have hother : ∀ d ∈ declarations, f.condition ≠ d.type
        ∧ ∀ t, schema.type? d.type = some t → f.condition ∉ t.interfaces := by
      intro d hd
      have hnot : f.condition ∉ nodeTypeNames schema d.type := fun hmem =>
        hnone (List.mem_flatMap.mpr ⟨d, hd, hmem⟩)
      rw [mem_nodeTypeNames_iff (c.isObject_of_mem hd), not_or] at hnot
      exact ⟨hnot.1, fun t ht hinterface => hnot.2 ⟨t, ht, hinterface⟩⟩
    exact ⟨.inr (.inr hother), fun _ d hd heq => absurd heq (hother d hd).1⟩

end Isolated

/-! ### Two node types with an interface in common -/

/-- A schema with two types that can be listed, and one that cannot. -/
def pairSchema : Schema where
  types := [⟨"ID", .scalar⟩, ⟨"String", .scalar⟩,
    ⟨"Named", .interface [] [⟨"id", .named "ID", []⟩, ⟨"name", .named "String", []⟩]⟩,
    ⟨"Foo", .object ["Named"] [⟨"id", .named "ID", []⟩, ⟨"name", .named "String", []⟩,
      ⟨"owner", .named "Owner", []⟩]⟩,
    ⟨"Bar", .object ["Named"] [⟨"id", .named "ID", []⟩, ⟨"name", .named "String", []⟩]⟩,
    ⟨"Owner", .object [] [⟨"name", .named "String", []⟩, ⟨"latest", .named "Named", []⟩]⟩,
    ⟨"Query", .object [] [⟨"allFoo", .list (.named "Foo"), []⟩,
      ⟨"allBar", .list (.named "Bar"), []⟩]⟩]
  directives := []
  query? := some "Query"

/-- The declaration of the second node type. -/
def barDeclaration : NodeDeclaration where
  type := "Bar"
  queries := "query LIST_Bar { allBar { ...BarId } } fragment BarId on Bar { id }"

/-- The ID fragment of the second declaration. -/
def barIdFragment : Fragment where
  name := "BarId"
  condition := "Bar"
  selections := [.plain "id"]

/-- An operation that makes selections on all nodes of the second type. -/
def barOperation (selections : List Selection) : Operation where
  kind := .query
  name? := some "LIST_Bar"
  variableDefinitions := []
  directives := []
  selections := [.plain "allBar" (some selections)]

/-- The queries of the second declaration. -/
def barQueries : Document :=
  [.operation (barOperation [.spread "BarId" []]), .fragment barIdFragment]

/-- Custom fragments on a node type and on the type that cannot be listed. -/
def pairSource : String :=
  "fragment Links on Foo { owner { ...Data } } fragment Data on Owner { latest { name } }"

/-- The custom fragments of the source. -/
def pairCustoms : List Fragment := [
  { name := "Links", condition := "Foo",
    selections := [.plain "owner" (some [.spread "Data" []])] },
  { name := "Data", condition := "Owner",
    selections := [.plain "latest" (some [.plain "name"])] }]

/-- The references to both types and to the interface. -/
def pairReferences : References := [("Foo", fooIdFragment.reference "Foo"),
  ("Bar", barIdFragment.reference "Bar"),
  ("Named", {
    name := "Named"
    condition := "Named"
    selections := [.plain "__typename", .plain "id"] })]

/-- What is selected on the interface inside the type that cannot be listed. -/
def pairOnNamed : Fragment where
  name := "Data__latest"
  condition := "Named"
  selections := [.plain "name"]

/-- The document of the first type. -/
def pairFooDocument : Document := [
  .operation (fooOperation [.field (some "remoteTypeName") "__typename" [] [] none,
    .spread "FooId" [], .spread "Links" [], .spread "Data__latest" []]),
  .fragment { fooIdFragment with selections := [.field (some "remoteId") "id" [] [] none] },
  .fragment {
    name := "Links"
    condition := "Foo"
    selections := [.plain "owner" (some [.field (some "remoteTypeName") "__typename" [] [] none,
      .spread "Data" []])] },
  .fragment pairOnNamed,
  .fragment {
    name := "Data"
    condition := "Owner"
    selections := [.plain "latest" (some [.field (some "remoteTypeName") "__typename" [] [] none,
      .field (some "remoteId") "id" [] [] none])] }]

/-- The document of the second type. -/
def pairBarDocument : Document := [
  .operation (barOperation [.field (some "remoteTypeName") "__typename" [] [] none,
    .spread "BarId" [], .spread "Data__latest" []]),
  .fragment { barIdFragment with selections := [.field (some "remoteId") "id" [] [] none] },
  .fragment pairOnNamed]

set_option maxRecDepth 10000 in
lemma read_barDeclaration (index : Nat) :
    barDeclaration.read index = .ok (barQueries, barIdFragment) := by
  have hscan : Token.scan? barDeclaration.queries = some [.name "query", .name "LIST_Bar",
      .mark '\x7b', .name "allBar", .mark '\x7b', .ellipsis, .name "BarId", .mark '\x7d',
      .mark '\x7d', .name "fragment", .name "BarId", .name "on", .name "Bar", .mark '\x7b',
      .name "id", .mark '\x7d'] := by
    decide +kernel
  refine NodeDeclaration.read_eq_ok.mpr ⟨by decide, by decide, ?_, rfl, rfl⟩
  exact Document.parse?_of_scan hscan rfl

set_option maxRecDepth 10000 in
lemma readFragments_pair : readFragments [pairSource] = .ok pairCustoms := by
  have hscan : Token.scan? pairSource = some [.name "fragment", .name "Links", .name "on",
      .name "Foo", .mark '\x7b', .name "owner", .mark '\x7b', .ellipsis, .name "Data",
      .mark '\x7d', .mark '\x7d', .name "fragment", .name "Data", .name "on", .name "Owner",
      .mark '\x7b', .name "latest", .mark '\x7b', .name "name", .mark '\x7d',
      .mark '\x7d'] := by
    decide +kernel
  exact readFragments_of_scan hscan rfl

lemma referenceFragments_pair :
    referenceFragments pairSchema [fooDeclaration, barDeclaration] = .ok pairReferences := by
  rw [referenceFragments, typeReferences, read_fooDeclaration, typeReferences,
    read_barDeclaration]
  rfl

lemma usages_pair : Usages.ofEvents (usageEvents pairSchema pairReferences pairCustoms)
    = [("Foo", [("Links", [.plain "owner" (some [.spread "Data" []])])]),
      ("Owner", [("Data", [.plain "latest" (some [.plain "name"])])]),
      ("Named", [("Data__latest", pairOnNamed.selections)])] := by
  cbv

set_option maxRecDepth 10000 in
lemma compileQueries_pair :
    (compileQueries pairSchema [fooDeclaration, barDeclaration] [pairSource]
      defaultAliases).outcome = .ok [("Foo", pairFooDocument), ("Bar", pairBarDocument)] := by
  refine compileQueries_eq_ok.mpr ⟨pairCustoms, pairReferences, _,
    [("Foo", pairFooDocument), ("Bar", pairBarDocument)], readFragments_pair,
    referenceFragments_pair, usages_pair, ?_, rfl⟩
  exact compileEach_cons_eq_ok.mpr ⟨fooQueries, fooIdFragment, pairFooDocument,
    [("Bar", pairBarDocument)], read_fooDeclaration 0, rfl,
    compileEach_cons_eq_ok.mpr ⟨barQueries, barIdFragment, pairBarDocument, [],
      read_barDeclaration 1, rfl, rfl, rfl⟩, rfl⟩

/-- The document of the second type has no fragment on the first one, whose custom fragment it is
compiled next to. -/
theorem compiled_isolated_pair :
    (compileQueries pairSchema [fooDeclaration, barDeclaration] [pairSource]
        defaultAliases).outcome = .ok [("Foo", pairFooDocument), ("Bar", pairBarDocument)]
      ∧ "Foo" ∈ pairFooDocument.fragments.map (·.condition)
      ∧ ∀ f ∈ pairBarDocument.fragments, f.condition ≠ "Foo" := by
  refine ⟨compileQueries_pair, by decide, fun f hf heq => ?_⟩
  have hinterfaces : ∀ t ∈ pairSchema.types, ∀ name ∈ t.interfaces,
      ¬ pairSchema.IsObject name := by
    simp [pairSchema, NamedType.interfaces, Schema.IsObject, Schema.type?, NamedType.isObject]
  have hdeclared : fooDeclaration ∈ [fooDeclaration, barDeclaration] := by simp
  have hsame := (compiled_isolated compileQueries_pair
    (by rfl : Keyed.get? _ "Bar" = some pairBarDocument) f hf).2 hinterfaces fooDeclaration
    hdeclared heq
  exact absurd hsame (by decide)

end RemoteNodes
