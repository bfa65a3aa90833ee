import Mathlib.Tactic
import RemoteNodes.Proofs.Document.Reachable
import RemoteNodes.Proofs.Document.Success
import RemoteNodes.Proofs.GraphQL.Parser
import RemoteNodes.Proofs.Node.Fragments
/-!
A successful compilation, from what it reads to the document of a node type.

* `Stages`: the stages of a document, as functions of what is read; `Compilation`: a document with
  the stages that it comes from; `exists_compilation`: **each compiled document has them**.
* `Stages.obeys_assembled`: the rules that hold of all that goes into a document.
* `Compilation.mem_fragmentNames`, `Compilation.mem_used`: which fragments a document defines, and
  that what it spreads is within reach.
* `fooDeclaration`: a node type with a list and an ID, to compile custom fragments for.
-/

namespace RemoteNodes

/-! ### The stages of a document -/

/-- What the document of a node type is made of. -/
structure Stages (schema : Schema) (declarations : List NodeDeclaration) (aliases : Aliases)
    (type : String) where
  customs : List Fragment
  references : References
  queries : Document
  idFragment : Fragment

namespace Stages

variable {schema : Schema} {declarations : List NodeDeclaration} {aliases : Aliases}
  {type : String} (c : Stages schema declarations aliases type)

/-- The names of the custom fragments. -/
def customNames : List String := c.customs.map (·.name)

/-- The walk over the custom fragments. -/
def walk : UsageWalk := usageWalk schema c.references c.customs

/-- What the walk over the custom fragments finds. -/
def events : List UsageEvent := usageEvents schema c.references c.customs

/-- What is recorded of it. -/
def usages : Usages := Usages.ofEvents c.events

/-- The node type and its interfaces. -/
def types (_ : Stages schema declarations aliases type) : List String := nodeTypeNames schema type

/-- All node types and their interfaces. -/
def allTypes (_ : Stages schema declarations aliases type) : List String :=
  declarations.flatMap fun d => nodeTypeNames schema d.type

/-- The fragments of the node type. -/
def nodeFragments : List Fragment := fragmentsFor schema c.usages c.references c.customs type

/-- The fragments that all documents share. -/
def sharedFragments : List Fragment := otherFragments schema declarations c.references c.customs

/-- All fragments that go into the document: the ID fragment, those of the node type and the shared
ones. -/
def parts : List Fragment := c.idFragment :: (c.nodeFragments ++ c.sharedFragments)

/-- Whether a fragment of the name goes into the document. -/
def Supplies (name : String) : Prop := ∃ f ∈ c.parts, f.name = name

/-- The document before anything is left out. -/
def assembled : Document :=
  assemble schema declarations aliases type c.queries c.nodeFragments c.sharedFragments

/-- The operations and the fragments within their reach. -/
def reached : Document := c.assembled.pruned

lemma records_usages : c.usages.Records c.events := Usages.records_ofEvents c.events

lemma mem_events {e : UsageEvent} : e ∈ c.events ↔ ∃ f ∈ c.customs, e ∈ c.walk.fragmentEvents f :=
  List.mem_flatMap

/-! #### The fragments that go into the document -/

/-- The stages leave names and types of fragments as they are. -/
lemma map_header_assembled : c.assembled.fragments.map (·.header)
    = (c.queries.fragments ++ (c.nodeFragments ++ c.sharedFragments)).map (·.header) := by
  rw [assembled, fragments_assemble, List.map_map]
  rfl

lemma mem_sharedFragments {name condition : String} :
    (∃ f ∈ c.sharedFragments, f.header = (name, condition))
      ↔ ∃ f ∈ c.customs, f.header = (name, condition) ∧ condition ∉ c.allTypes := by
  have heq : c.sharedFragments = (c.customs.filter fun f => !c.allTypes.contains f.condition).map
      (·.shallow schema c.references c.customs) := rfl
  rw [heq]
  constructor
  · rintro ⟨f', hf', hheader⟩
    obtain ⟨f, hf, rfl⟩ := List.mem_map.mp hf'
    obtain ⟨hf, htype⟩ := List.mem_filter.mp hf
    cases hheader
    exact ⟨f, hf, rfl, by simpa using htype⟩
  · rintro ⟨f, hf, hheader, htype⟩
    cases hheader
    refine ⟨_, List.mem_map_of_mem (List.mem_filter.mpr ⟨hf, ?_⟩), rfl⟩
    simpa using htype

/-! #### Rules -/

section Rules

variable {c} {rule : SelectionRule}

/-- Whatever the walk over custom fragments finds obeys the rules that they obey. -/
lemma obeys_of_found (hcustoms : ∀ f ∈ c.customs, SetObeys rule f.selections)
    {type' path : String} {s : Selection} (h : .found type' path s ∈ c.events) : s.Obeys rule := by
  obtain ⟨f, hf, h⟩ := c.mem_events.mp h
  exact UsageWalk.inherited_obeys.of_found (hcustoms f hf).2 h

/-- A document obeys the rules that all that goes into it obeys and that allow to spread the node
fragments. -/
theorem obeys_assembled (href : c.references.Obey rule) (hqueries : c.queries.Obeys rule)
    (hcustoms : ∀ f ∈ c.customs, SetObeys rule f.selections)
    (hnames : ∀ f ∈ c.nodeFragments, rule.names f.name) : c.assembled.Obeys rule := by
  have hnode : ∀ f ∈ c.nodeFragments, SetObeys rule f.selections := fun f hf =>
    setObeys_of_mem_fragmentsFor c.records_usages href (obeys_of_found hcustoms) hf
  have hshared : ∀ f ∈ c.sharedFragments, SetObeys rule f.selections := by
    intro f' hf'
    obtain ⟨f, hf, rfl⟩ := List.mem_map.mp hf'
    exact Fragment.setObeys_shallow href (hcustoms f (List.mem_filter.mp hf).1)
  have hcombined : Document.Obeys rule
      (c.queries ++ (c.nodeFragments ++ c.sharedFragments).map Definition.fragment) := by
    refine ⟨fun o ho => hqueries.1 o (by simpa using ho), fun f hf => ?_⟩
    rw [Document.fragments_append, Document.fragments_map_fragment] at hf
    rcases List.mem_append.mp hf with hf | hf
    · exact hqueries.2 f hf
    · rcases List.mem_append.mp hf with hf | hf
      · exact hnode f hf
      · exact hshared f hf
  have hspread : ∀ name ∈ c.nodeFragments.map (·.name), rule.names name :=
    List.forall_mem_map.mpr hnames
  exact (((hcombined.addSpreads hspread).rewrite keeps_typenameRewriting).rewrite
    keeps_aliasRewriting).withVariables

end Rules

end Stages

/-! ### A compiled document -/

/-- A document that was compiled from custom fragments and declarations, with its stages. -/
structure Compilation (schema : Schema) (declarations : List NodeDeclaration)
    (sources : List String) (aliases : Aliases) (type : String) (document : Document) extends
    Stages schema declarations aliases type where
  /-- The ID fragment as it was compiled. -/
  found : Fragment
  customs_read : readFragments sources = .ok customs
  references_made : referenceFragments schema declarations = .ok references
  declared : Declares declarations type queries idFragment
  named : toStages.assembled.allNamed = true
  found_reached : toStages.reached.fragments.find? (·.name == idFragment.name) = some found
  left : toStages.reached.removeFragments (Document.idDuplicates schema type found
    (Document.otherThanFirst idFragment.name toStages.reached.fragments)) = document

section Compiled

variable {schema : Schema} {declarations : List NodeDeclaration} {sources : List String}
  {aliases : Aliases} {type : String} {documents : Keyed Document} {document : Document}

/-- Each compiled document has the stages that it comes from. -/
theorem exists_compilation
    (h : (compileQueries schema declarations sources aliases).outcome = .ok documents)
    (hdocument : Keyed.get? documents type = some document) :
    Nonempty (Compilation schema declarations sources aliases type document) := by
  obtain ⟨customs, references, usages, pairs, hcustoms, hreferences, rfl, hpairs, rfl⟩ :=
    compileQueries_eq_ok.mp h
  obtain ⟨index, d, queries, idFragment, hd, rfl, hread, hcompile⟩ :=
    exists_of_mem_compileEach hpairs (Keyed.mem_of_get?_ofPairs hdocument)
  rw [Nat.zero_add] at hread
  rw [get?_nodeFragments (List.mem_of_getElem? hd), Option.getD_some] at hcompile
  obtain ⟨assembled, rfl, hnamed, found, hfound, hleft⟩ := compileDocument_eq_ok.mp hcompile
  exact ⟨{
    customs, references, queries, idFragment, found
    customs_read := hcustoms
    references_made := hreferences
    declared := ⟨index, d, hd, rfl, hread⟩
    named := hnamed
    found_reached := hfound
    left := hleft }⟩

end Compiled

namespace Compilation

variable {schema : Schema} {declarations : List NodeDeclaration} {sources : List String}
  {aliases : Aliases} {type : String} {document : Document}
  (c : Compilation schema declarations sources aliases type document)

/-- The fragments that repeat the ID fragment. -/
def duplicates : List String :=
  Document.idDuplicates schema type c.found
    (Document.otherThanFirst c.idFragment.name c.reached.fragments)

/-- Whether a fragment stays in the document. -/
def stays (f : Fragment) : Bool :=
  c.assembled.used.contains f.name && !c.duplicates.contains f.name

lemma stays_iff {f : Fragment} :
    c.stays f = true ↔ f.name ∈ c.assembled.used ∧ f.name ∉ c.duplicates := by
  simp [stays]

/-- A fragment without the spreads of those that are taken out. -/
def cleaned (f : Fragment) : Fragment :=
  { f with selections := dropSpreadsIn c.duplicates f.selections }

lemma fragments_eq : document.fragments = (c.assembled.fragments.filter c.stays).map c.cleaned := by
  have hfilter : c.assembled.fragments.filter c.stays
      = c.reached.fragments.filter fun f => !c.duplicates.contains f.name := by
    rw [Stages.reached, Document.fragments_pruned, List.filter_filter]
    exact List.filter_congr fun f _ => Bool.and_comm _ _
  rw [hfilter]
  exact (congrArg Document.fragments c.left).symm.trans (Document.fragments_removeFragments _)

lemma operations_eq : document.operations = c.assembled.operations.map
    fun o => { o with selections := dropSpreadsIn c.duplicates o.selections } := by
  have hreached : c.reached.operations = c.assembled.operations := Document.operations_pruned _
  rw [← hreached]
  exact (congrArg Document.operations c.left).symm.trans (Document.operations_removeFragments _)

lemma queries_fragments : c.queries.fragments = [c.idFragment] := by
  obtain ⟨index, d, -, -, hread⟩ := c.declared
  exact (NodeDeclaration.read_eq_ok.mp hread).2.2.2.1

/-- The fragments of a document, by name and type: those that go into it, as far as they stay. -/
lemma map_header_fragments : document.fragments.map (·.header)
    = (c.parts.filter c.stays).map (·.header) := by
  have hstays (fs : List Fragment) : (fs.filter c.stays).map (·.header)
      = (fs.map (·.header)).filter fun h =>
        c.assembled.used.contains h.1 && !c.duplicates.contains h.1 := by
    rw [List.filter_map]
    rfl
  have hheaders : c.assembled.fragments.map (·.header) = c.parts.map (·.header) := by
    rw [c.map_header_assembled, c.queries_fragments]
    rfl
  rw [c.fragments_eq, List.map_map, hstays c.parts, ← hheaders, ← hstays]
  rfl

/-- A name is defined in a document exactly if a fragment of the name goes into it, is within reach,
and does not repeat the ID fragment. -/
theorem mem_fragmentNames {name : String} : name ∈ document.fragmentNames
    ↔ c.Supplies name ∧ name ∈ c.assembled.used ∧ name ∉ c.duplicates := by
  have hnames : document.fragmentNames = (document.fragments.map (·.header)).map (·.1) := by
    rw [List.map_map]
    rfl
  rw [hnames, c.map_header_fragments, List.map_map, List.mem_map, Stages.Supplies]
  constructor
  · rintro ⟨f, hf, rfl⟩
    obtain ⟨hf, hstays⟩ := List.mem_filter.mp hf
    exact ⟨⟨f, hf, rfl⟩, c.stays_iff.mp hstays⟩
  · rintro ⟨⟨f, hf, rfl⟩, hstays⟩
    exact ⟨f, List.mem_filter.mpr ⟨hf, c.stays_iff.mpr hstays⟩, rfl⟩

/-- What a document spreads was spread before fragments were left out, and has not been left out. -/
lemma mem_spreadNames_assembled {name : String} (h : name ∈ document.spreadNames) :
    name ∈ c.assembled.spreadNames ∧ name ∉ c.duplicates := by
  have hleft : document.spreadNames = (c.reached.removeFragments c.duplicates).spreadNames :=
    congrArg Document.spreadNames c.left.symm
  rw [hleft] at h
  obtain ⟨hname, hduplicate⟩ := Document.mem_spreadNames_removeFragments h
  refine ⟨?_, hduplicate⟩
  rw [Document.mem_spreadNames, Stages.reached, Document.operations_pruned,
    Document.fragments_pruned] at hname
  rw [Document.mem_spreadNames]
  refine hname.imp_right ?_
  rintro ⟨f, hf, hname⟩
  exact ⟨f, (List.mem_filter.mp hf).1, hname⟩

/-- In a document without repeated names, whatever is spread is within reach of the operations. -/
theorem mem_used (hoperations : (document.operations.map (·.name?)).Nodup)
    (hfragments : document.fragmentNames.Nodup) {name : String} (h : name ∈ document.spreadNames) :
    name ∈ c.assembled.used := by
  have hused {o : Operation} {n : String} (ho : o ∈ c.assembled.operations)
      (hn : n ∈ c.assembled.reachable
        (spreadNamesIn (c.assembled.lastOperation o).selections)) : n ∈ c.assembled.used :=
    List.mem_flatMap.mpr ⟨o, ho, hn⟩
  rcases Document.mem_spreadNames.mp h with ⟨o', ho', hname⟩ | ⟨f', hf', hname⟩
  · -- the operation is the only one of its name
    rw [c.operations_eq] at ho' hoperations
    obtain ⟨o, ho, rfl⟩ := List.mem_map.mp ho'
    rw [List.map_map] at hoperations
    have hlast : c.assembled.lastOperation o = o := by
      rw [Document.lastOperation, find?_reverse_of_unique (·.name?) ho fun other hother heq =>
        List.inj_on_of_nodup_map hoperations hother ho heq, Option.getD_some]
    rw [spreadNamesIn_dropSpreadsIn] at hname
    refine hused ho (Document.mem_reachable_of_mem ?_)
    rw [hlast]
    exact (List.mem_filter.mp hname).1
  · -- the fragment is within reach, and it is the only one of its name
    rw [c.fragments_eq] at hf'
    obtain ⟨f, hf, rfl⟩ := List.mem_map.mp hf'
    obtain ⟨hf, hstays⟩ := List.mem_filter.mp hf
    obtain ⟨o, ho, hreach⟩ := List.mem_flatMap.mp (c.stays_iff.mp hstays).1
    rw [cleaned, spreadNamesIn_dropSpreadsIn] at hname
    refine hused ho (Document.mem_reachable_of_mem_spreadsOf hreach ?_)
    have hlast : c.assembled.fragments.reverse.find? (·.name == f.name) = some f := by
      refine find?_reverse_of_unique (·.name) hf fun other hother heq => ?_
      rw [Document.fragmentNames, c.fragments_eq, List.map_map] at hfragments
      have hother : other ∈ c.assembled.fragments.filter c.stays := by
        refine List.mem_filter.mpr ⟨hother, ?_⟩
        rw [c.stays_iff, heq]
        exact c.stays_iff.mp hstays
      exact List.inj_on_of_nodup_map hfragments hother (List.mem_filter.mpr ⟨hf, hstays⟩) heq
    rw [Document.spreadsOf, hlast]
    exact (List.mem_filter.mp hname).1

end Compilation

/-! ### A node type to compile for -/

/-- A schema with one type that can be listed. -/
def fooSchema : Schema where
  types := [⟨"ID", .scalar⟩, ⟨"String", .scalar⟩,
    ⟨"Foo", .object [] [⟨"id", .named "ID", []⟩, ⟨"name", .named "String", []⟩]⟩,
    ⟨"Query", .object [] [⟨"allFoo", .list (.named "Foo"), []⟩]⟩]
  directives := []
  query? := some "Query"

/-- The declaration of a node type with a list and an ID. -/
def fooDeclaration : NodeDeclaration where
  type := "Foo"
  queries := "query LIST_Foo { allFoo { ...FooId } } fragment FooId on Foo { id }"

/-- An operation that makes selections on all nodes of the type. -/
def fooOperation (selections : List Selection) : Operation where
  kind := .query
  name? := some "LIST_Foo"
  variableDefinitions := []
  directives := []
  selections := [.plain "allFoo" (some selections)]

/-- The ID fragment of the declaration. -/
def fooIdFragment : Fragment where
  name := "FooId"
  condition := "Foo"
  selections := [.plain "id"]

/-- The queries of the declaration. -/
def fooQueries : Document :=
  [.operation (fooOperation [.spread "FooId" []]), .fragment fooIdFragment]

/-- The reference to the type. -/
def fooReferences : References := [("Foo", fooIdFragment.reference "Foo")]

set_option maxRecDepth 10000 in
lemma read_fooDeclaration (index : Nat) :
    fooDeclaration.read index = .ok (fooQueries, fooIdFragment) := by
  have hscan : Token.scan? fooDeclaration.queries = some [.name "query", .name "LIST_Foo",
      .mark '\x7b', .name "allFoo", .mark '\x7b', .ellipsis, .name "FooId", .mark '\x7d',
      .mark '\x7d', .name "fragment", .name "FooId", .name "on", .name "Foo", .mark '\x7b',
      .name "id", .mark '\x7d'] := by
    decide +kernel
  refine NodeDeclaration.read_eq_ok.mpr ⟨by decide, by decide, ?_, rfl, rfl⟩
  exact Document.parse?_of_scan hscan rfl

lemma declares_foo {type : String} {queries : Document} {idFragment : Fragment}
    (h : Declares [fooDeclaration] type queries idFragment) :
    queries = fooQueries ∧ idFragment = fooIdFragment := by
  obtain ⟨index, d, hd, -, hread⟩ := h
  obtain rfl := List.mem_singleton.mp (List.mem_of_getElem? hd)
  exact Prod.mk.inj (Except.ok.inj (hread.symm.trans (read_fooDeclaration index)))

lemma referenceFragments_foo :
    referenceFragments fooSchema [fooDeclaration] = .ok fooReferences := by
  rw [referenceFragments, typeReferences, read_fooDeclaration]
  rfl

/-- Custom fragments are what the tokens of their source are read as. -/
lemma readFragments_of_scan {source : String} {tokens rest : List Token} {customs : List Fragment}
    (hscan : Token.scan? source = some tokens)
    (hread : (Reader.definitions (tokens.length + 1) (tokens.length + 1)).run tokens
      = some (customs.map Definition.fragment, rest)) :
    readFragments [source] = .ok customs := by
  have hfragments : [customs.map Definition.fragment].flatMap Document.fragments = customs := by
    rw [List.flatMap_singleton, Document.fragments_map_fragment]
  exact readFragments_eq_ok.mpr ⟨[customs.map Definition.fragment],
    .cons (Document.parse?_of_scan hscan hread) .nil, hfragments⟩

/-- The document of the one declared type is compiled out of what the custom fragments give for
it. -/
lemma compileQueries_one {schema : Schema} {d : NodeDeclaration} {queries document : Document}
    {idFragment : Fragment} {source : String} {customs : List Fragment} {references : References}
    {usages : Usages} {aliases : Aliases} (hd : d.read 0 = .ok (queries, idFragment))
    (hread : readFragments [source] = .ok customs)
    (hreferences : referenceFragments schema [d] = .ok references)
    (husages : Usages.ofEvents (usageEvents schema references customs) = usages)
    (hdocument : (compileDocument schema [d] d queries
      ((Keyed.get? (nodeFragments schema [d] usages references customs) d.type).getD [])
      (otherFragments schema [d] references customs) aliases idFragment.name).outcome
        = .ok document) :
    (compileQueries schema [d] [source] aliases).outcome = .ok [(d.type, document)] := by
  refine compileQueries_eq_ok.mpr ⟨customs, references, usages, [(d.type, document)], hread,
    hreferences, husages, ?_, rfl⟩
  exact compileEach_cons_eq_ok.mpr ⟨queries, idFragment, document, [], hd, hdocument, rfl, rfl⟩

lemma compileQueries_foo {schema : Schema} {source : String} {customs : List Fragment}
    {references : References} {usages : Usages} {document : Document}
    (hread : readFragments [source] = .ok customs)
    (hreferences : referenceFragments schema [fooDeclaration] = .ok references)
    (husages : Usages.ofEvents (usageEvents schema references customs) = usages)
    (hdocument : (compileDocument schema [fooDeclaration] fooDeclaration fooQueries
      ((Keyed.get? (nodeFragments schema [fooDeclaration] usages references customs) "Foo").getD [])
      (otherFragments schema [fooDeclaration] references customs) defaultAliases
      "FooId").outcome = .ok document) :
    (compileQueries schema [fooDeclaration] [source] defaultAliases).outcome
      = .ok [("Foo", document)] :=
  compileQueries_one (read_fooDeclaration 0) hread hreferences husages hdocument

end RemoteNodes
