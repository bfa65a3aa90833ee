import Mathlib
import RemoteNodes.Proofs.Document.Compilation
import RemoteNodes.Proofs.Document.Duplicates
/-!
Whether the ID fragment of a node type can be looked up in the document that is compiled for it. It
is found before fragments that repeat it are taken out, but these are taken out by their names.

* `exists_definitionsFrom`: compiled documents make definitions.
* `NodeDefinition.exists_idFragment_iff`: when a lookup succeeds.
* `compiled_idFragment_iff`: **when the ID fragment of a definition is there, and when operations
  lead to it**; `compiled_idFragment_lost`: it need not be there.
-/

namespace RemoteNodes

open Relation

variable {schema : Schema} {declarations : List NodeDeclaration} {sources : List String}
  {aliases : Aliases} {type : String} {documents : Keyed Document} {document : Document}

/-! ### Definitions -/

/-- A definition is made of a declaration and of the document of its type. -/
def Defines (documents : Keyed Document) (d : NodeDeclaration) (definition : NodeDefinition) :
    Prop :=
  definition.type = d.type ∧ Keyed.get? documents d.type = some definition.document
    ∧ ∃ index queries idFragment, d.read index = .ok (queries, idFragment)
      ∧ definition.idFragmentName = idFragment.name

/-- Declarations whose documents are compiled can be read, and each gets a document. -/
lemma read_of_compileEach {nodeFragments : Keyed (List Fragment)} {otherFragments : List Fragment}
    {index : Nat} {ds : List NodeDeclaration} {pairs : List (String × Document)}
    (h : (compileEach schema declarations nodeFragments otherFragments aliases index ds).outcome
      = .ok pairs) :
    pairs.map (·.1) = ds.map (·.type)
      ∧ ∀ d ∈ ds, ∃ index queries idFragment, d.read index = .ok (queries, idFragment) := by
  induction ds generalizing index pairs with
  | nil =>
      cases h
      exact ⟨rfl, fun _ hd => nomatch hd⟩
  | cons d ds ih =>
      obtain ⟨queries, idFragment, document, rest, hread, -, hrest, rfl⟩ :=
        compileEach_cons_eq_ok.mp h
      obtain ⟨htypes, hreads⟩ := ih hrest
      exact ⟨congrArg (d.type :: ·) htypes,
        List.forall_mem_cons.mpr ⟨⟨index, queries, idFragment, hread⟩, hreads⟩⟩

/-- What a declaration is read as does not depend on its position. -/
lemma NodeDeclaration.read_congr {d : NodeDeclaration} {index index' : Nat}
    {queries : Document} {idFragment : Fragment} (h : d.read index = .ok (queries, idFragment)) :
    d.read index' = .ok (queries, idFragment) :=
  NodeDeclaration.read_eq_ok.mpr (NodeDeclaration.read_eq_ok.mp h)

/-- A type that is declared once has one document of queries and one ID fragment. -/
lemma Declares.unique {declarations : List NodeDeclaration} {type : String}
    {queries queries' : Document} {idFragment idFragment' : Fragment}
    (htypes : (declarations.map (·.type)).Nodup)
    (h : Declares declarations type queries idFragment)
    (h' : Declares declarations type queries' idFragment') :
    queries = queries' ∧ idFragment = idFragment' := by
  obtain ⟨index, d, hd, htype, hread⟩ := h
  obtain ⟨index', d', hd', htype', hread'⟩ := h'
  obtain rfl : d = d' := List.inj_on_of_nodup_map htypes (List.mem_of_getElem? hd)
    (List.mem_of_getElem? hd') (htype.trans htype'.symm)
  have hsame := (NodeDeclaration.read_congr hread).symm.trans hread'
  exact Prod.mk.inj (Except.ok.inj hsame)

/-- Declarations that can be read and whose types have documents make definitions. -/
lemma exists_definitionsFrom (index : Nat) {ds : List NodeDeclaration}
    (h : ∀ d ∈ ds, (∃ document, Keyed.get? documents d.type = some document)
      ∧ ∃ index queries idFragment, d.read index = .ok (queries, idFragment)) :
    ∃ pairs, definitionsFrom documents index ds = .ok pairs
      ∧ pairs.map (·.1) = ds.map (·.type)
      ∧ ∀ p ∈ pairs, ∃ d ∈ ds, d.type = p.1 ∧ Defines documents d p.2 := by
  induction ds generalizing index with
  | nil => exact ⟨[], rfl, rfl, fun _ hp => nomatch hp⟩
  | cons d ds ih =>
      obtain ⟨⟨⟨document, hdocument⟩, _, queries, idFragment, hread⟩, hds⟩ :=
        List.forall_mem_cons.mp h
      obtain ⟨rest, hrest, htypes, hdefines⟩ := ih (index + 1) hds
      have hread : d.read index = .ok (queries, idFragment) := NodeDeclaration.read_congr hread
      refine ⟨(d.type, ⟨d.type, document, idFragment.name⟩) :: rest, ?_,
        congrArg (d.type :: ·) htypes, List.forall_mem_cons.mpr ⟨⟨d, List.mem_cons_self, rfl, ?_⟩,
          fun p hp => ?_⟩⟩
      · rw [definitionsFrom, hdocument]
        simp only [hread, hrest]
        rfl
      · exact ⟨rfl, hdocument, index, queries, idFragment, hread, rfl⟩
      · obtain ⟨d', hd', hdefined⟩ := hdefines p hp
        exact ⟨d', List.mem_cons_of_mem _ hd', hdefined⟩

/-- Each declaration whose document is compiled makes a definition. -/
lemma exists_nodeDefinitions
    (hcompile : (compileQueries schema declarations sources aliases).outcome = .ok documents)
    (htypes : (declarations.map (·.type)).Nodup) :
    ∃ definitions, nodeDefinitions declarations documents = .ok definitions
      ∧ ∀ d ∈ declarations, ∃ definition, Keyed.get? definitions d.type = some definition
        ∧ Defines documents d definition := by
  obtain ⟨customs, references, usages, compiled, -, -, -, hcompiled, rfl⟩ :=
    compileQueries_eq_ok.mp hcompile
  obtain ⟨hkeys, hreads⟩ := read_of_compileEach hcompiled
  have hdocuments : ∀ d ∈ declarations,
      ∃ document, Keyed.get? (Keyed.ofPairs compiled) d.type = some document := by
    refine fun d hd => Keyed.exists_get?_ofPairs ?_
    rw [hkeys]
    exact List.mem_map_of_mem hd
  obtain ⟨pairs, hpairs, hkeys, hdefines⟩ :=
    exists_definitionsFrom 0 fun d hd => ⟨hdocuments d hd, hreads d hd⟩
  refine ⟨Keyed.ofPairs pairs, ?_, fun d hd => ?_⟩
  · rw [nodeDefinitions, hpairs]
    rfl
  · obtain ⟨definition, hdefinition⟩ : ∃ definition,
        Keyed.get? (Keyed.ofPairs pairs) d.type = some definition := by
      refine Keyed.exists_get?_ofPairs ?_
      rw [hkeys]
      exact List.mem_map_of_mem hd
    obtain ⟨d', hd', htype, hdefined⟩ := hdefines _ (Keyed.mem_of_get?_ofPairs hdefinition)
    obtain rfl : d' = d := List.inj_on_of_nodup_map htypes hd' hd htype
    exact ⟨definition, hdefinition, hdefined⟩

/-- A definition's ID fragment can be looked up exactly if its document has one of that name. -/
lemma NodeDefinition.exists_idFragment_iff {definition : NodeDefinition} :
    (∃ f, definition.idFragment = .ok f)
      ↔ ∃ f ∈ definition.document.fragments, f.name = definition.idFragmentName := by
  rw [NodeDefinition.idFragment]
  cases hfind : definition.document.fragments.find? (·.name == definition.idFragmentName) with
  | none => simpa using hfind
  | some f =>
      exact iff_of_true ⟨f, rfl⟩
        ⟨f, List.mem_of_find?_eq_some hfind, by simpa using List.find?_some hfind⟩

/-! ### Compiled documents -/

namespace Compilation

variable (c : Compilation schema declarations sources aliases type document)

/-- The last stage of a document. -/
def deduplication :
    Document.Deduplication schema type c.idFragment.name c.reached document :=
  ⟨c.found, c.found_reached, c.left⟩

/-- A fragment that selects nothing beyond the ID fragment, on the node type or an interface. -/
def Repeats (f : Fragment) : Prop :=
  f.condition ∈ c.types ∧ selectionsInclude c.found.selections f.selections = true

lemma mem_duplicates {name : String} : name ∈ c.duplicates
    ↔ ∃ f ∈ Document.otherThanFirst c.idFragment.name c.reached.fragments,
        c.Repeats f ∧ f.name = name :=
  Document.mem_idDuplicates

/-- Operations lead to the ID fragment that was found, before repetitions are taken out. -/
lemma reaches_found : c.reached.Reaches c.idFragment.name := by
  rw [← c.deduplication.name_found]
  exact Document.reaches_of_mem_pruned c.deduplication.found_mem

/-- The declarations of a type all give it one ID fragment. -/
lemma idFragmentName_eq (htypes : (declarations.map (·.type)).Nodup) {d : NodeDeclaration}
    (hd : d ∈ declarations) (htype : d.type = type) {definition : NodeDefinition}
    (hdefines : Defines documents d definition) :
    definition.idFragmentName = c.idFragment.name := by
  obtain ⟨-, -, index, queries, idFragment, hread, hname⟩ := hdefines
  obtain ⟨offset, hoffset⟩ := List.mem_iff_getElem?.mp hd
  obtain ⟨-, rfl⟩ := c.declared.unique htypes
    ⟨offset, d, hoffset, htype, NodeDeclaration.read_congr hread⟩
  exact hname

end Compilation

/-- Compiled documents of distinct node types make definitions. The ID fragment of a definition is
there exactly if no other fragment of its name, within reach of the operations, repeats it, and
operations lead to it exactly if they do so past the fragments that repeat it. Both hold if the
names of fragments are distinct and the ID fragment does not lead back to itself. -/
theorem compiled_idFragment_iff
    (hcompile : (compileQueries schema declarations sources aliases).outcome = .ok documents)
    (htypes : (declarations.map (·.type)).Nodup) :
    ∃ definitions, nodeDefinitions declarations documents = .ok definitions
      ∧ ∀ d ∈ declarations, ∃ definition, Keyed.get? definitions d.type = some definition
        ∧ Keyed.get? documents d.type = some definition.document
        ∧ ∃ c : Compilation schema declarations sources aliases d.type definition.document,
          definition.idFragmentName = c.idFragment.name
          ∧ ((∃ f, definition.idFragment = .ok f)
              ↔ ∀ f ∈ Document.otherThanFirst c.idFragment.name c.reached.fragments,
                f.name = c.idFragment.name → ¬ c.Repeats f)
          ∧ (definition.document.Reaches c.idFragment.name
              ↔ c.reached.ReachesPast c.duplicates c.idFragment.name)
          ∧ (c.reached.fragmentNames.Nodup →
              ¬ TransGen c.reached.Spreads c.idFragment.name c.idFragment.name →
              (∃ f, definition.idFragment = .ok f)
                ∧ definition.document.Reaches c.idFragment.name) := by
  obtain ⟨definitions, hdefinitions, hdefined⟩ := exists_nodeDefinitions hcompile htypes
  refine ⟨definitions, hdefinitions, fun d hd => ?_⟩
  obtain ⟨definition, hget, hdefines⟩ := hdefined d hd
  obtain ⟨-, hdocument, -⟩ := id hdefines
  obtain ⟨c⟩ := exists_compilation hcompile hdocument
  have hname : definition.idFragmentName = c.idFragment.name :=
    c.idFragmentName_eq htypes hd rfl hdefines
  have hfound : (∃ f, definition.idFragment = .ok f) ↔ c.idFragment.name ∉ c.duplicates := by
    rw [NodeDefinition.exists_idFragment_iff, hname]
    exact c.deduplication.exists_idFragment_iff
  refine ⟨definition, hget, hdocument, c, hname, ?_, c.deduplication.reaches_iff,
    fun hnodup hcycle => ⟨?_, ?_⟩⟩
  · rw [hfound, c.mem_duplicates]
    constructor
    · exact fun h f hf hname hrepeats => h ⟨f, hf, hrepeats, hname⟩
    · rintro h ⟨f, hf, hrepeats, hname⟩
      exact h f hf hname hrepeats
  · exact hfound.mpr (c.deduplication.idFragment_not_mem hnodup)
  · exact c.deduplication.reaches_idFragment hnodup hcycle c.reaches_found

/-! ### A document without its ID fragment -/

/-- A custom fragment of the same name as the ID fragment, which selects the same. -/
def idSource : String := "fragment FooId on Foo { id }"

/-- The document that is compiled from it. -/
def idDocument : Document := [
  .operation (fooOperation [.field (some "remoteTypeName") "__typename" [] [] none])]

set_option maxRecDepth 10000 in
lemma readFragments_id : readFragments [idSource] = .ok [fooIdFragment] := by
  have hscan : Token.scan? idSource = some [.name "fragment", .name "FooId", .name "on",
      .name "Foo", .mark '\x7b', .name "id", .mark '\x7d'] := by
    decide +kernel
  exact readFragments_of_scan hscan rfl

lemma usages_id : Usages.ofEvents (usageEvents fooSchema fooReferences [fooIdFragment])
    = [("Foo", [("FooId", [.plain "id"])])] := by
  cbv

set_option maxRecDepth 10000 in
lemma compileQueries_id :
    (compileQueries fooSchema [fooDeclaration] [idSource] defaultAliases).outcome
      = .ok [("Foo", idDocument)] :=
  compileQueries_foo readFragments_id referenceFragments_foo usages_id rfl

/-- The definition that is made of it. -/
def idDefinition : NodeDefinition := ⟨"Foo", idDocument, "FooId"⟩

lemma nodeDefinitions_id :
    nodeDefinitions [fooDeclaration] [("Foo", idDocument)] = .ok [("Foo", idDefinition)] := by
  rw [nodeDefinitions, definitionsFrom, read_fooDeclaration]
  rfl

/-- A compilation that succeeds, after which the ID fragment cannot be looked up and no operation
leads to it. -/
theorem compiled_idFragment_lost : ∃ documents definitions definition,
    (compileQueries fooSchema [fooDeclaration] [idSource] defaultAliases).outcome = .ok documents
      ∧ nodeDefinitions [fooDeclaration] documents = .ok definitions
      ∧ Keyed.get? definitions fooDeclaration.type = some definition
      ∧ definition.idFragment = .error (.noIdFragment "FooId" "Foo")
      ∧ ¬ definition.document.Reaches "FooId" := by
  refine ⟨_, _, idDefinition, compileQueries_id, nodeDefinitions_id, rfl, rfl, ?_⟩
  rintro ⟨o, ho, first, hfirst, -⟩
  obtain rfl := List.mem_singleton.mp ho
  cases hfirst

/-- The custom fragment is taken out as one that repeats the ID fragment. -/
theorem compiled_idFragment_iff_id :
    ∃ c : Compilation fooSchema [fooDeclaration] [idSource] defaultAliases "Foo" idDocument,
      ∃ f ∈ Document.otherThanFirst "FooId" c.reached.fragments,
        f.name = "FooId" ∧ c.Repeats f := by
  obtain ⟨definitions, hdefinitions, hdefined⟩ :=
    compiled_idFragment_iff compileQueries_id (List.nodup_singleton _)
  obtain rfl : definitions = [("Foo", idDefinition)] :=
    Except.ok.inj (hdefinitions.symm.trans nodeDefinitions_id)
  obtain ⟨definition, hget, -, c, hname, hfound, -⟩ :=
    hdefined fooDeclaration (List.mem_singleton_self _)
  obtain rfl : idDefinition = definition := Option.some.inj hget
  have hlost : ¬ ∃ f, idDefinition.idFragment = .ok f := fun ⟨_, h⟩ => nomatch h
  have hrepeated := hfound.not.mp hlost
  push Not at hrepeated
  rw [← hname] at hrepeated
  exact ⟨c, hrepeated⟩

end RemoteNodes
