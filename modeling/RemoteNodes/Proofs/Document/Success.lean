import Mathlib.Tactic
import RemoteNodes.Document.Compile
import RemoteNodes.Proofs.Document.Stages
import RemoteNodes.Proofs.Fault
/-!
When compiling succeeds, and with what. Each lemma takes one function apart: what its steps give,
and what else must hold.

* `readFragments_eq_ok`, `NodeDeclaration.read_eq_ok`: reading custom fragments and declarations.
* `assemble`, `fragments_assemble`, `exists_of_mem_operations_assemble`,
  `compileDocument_eq_ok`: one document, with its stages in one function.
* `compileEach_cons_eq_ok`, `compileQueries_eq_ok`: all documents; `exists_of_mem_compileEach`: each
  of them comes from a declaration.
-/

namespace RemoteNodes

lemma Document.parse_eq_ok {text : String} {document : Document} :
    Document.parse text = .ok document ↔ Document.parse? text = some document := by
  rw [Document.parse]
  cases Document.parse? text <;> simp

/-- Sources are read exactly if each of them can be parsed. -/
lemma readFragments_eq_ok {sources : List String} {customs : List Fragment} :
    readFragments sources = .ok customs ↔ ∃ documents : List Document,
      List.Forall₂ (fun text document => Document.parse? text = some document) sources documents
        ∧ documents.flatMap Document.fragments = customs := by
  have hparse : (fun text document => Document.parse text = Except.ok document)
      = fun text document => Document.parse? text = some document := by
    funext text document
    exact propext Document.parse_eq_ok
  rw [readFragments, bind_eq_ok]
  simp only [mapM_eq_ok, hparse]
  constructor
  · rintro ⟨documents, hdocuments, hcustoms⟩
    exact ⟨documents, hdocuments, Except.ok.inj hcustoms⟩
  · rintro ⟨documents, hdocuments, rfl⟩
    exact ⟨documents, hdocuments, rfl⟩

/-- A custom fragment stands in one of the sources. -/
lemma exists_source_of_mem_readFragments {sources : List String} {customs : List Fragment}
    {f : Fragment} (h : readFragments sources = .ok customs) (hf : f ∈ customs) :
    ∃ text ∈ sources, ∃ document, Document.parse? text = some document
      ∧ f ∈ document.fragments := by
  obtain ⟨documents, hdocuments, rfl⟩ := readFragments_eq_ok.mp h
  obtain ⟨document, hdocument, hf⟩ := List.mem_flatMap.mp hf
  obtain ⟨i, hi, rfl⟩ := List.mem_iff_getElem.mp hdocument
  obtain ⟨hlength, hparse⟩ := List.forall₂_iff_get.mp hdocuments
  have hsource : i < sources.length := hlength ▸ hi
  exact ⟨sources[i], List.getElem_mem hsource, documents[i], hparse i hsource hi, hf⟩

/-- The fragments of each source are custom fragments. -/
lemma exists_document_of_mem_sources {sources : List String} {customs : List Fragment}
    {text : String} (h : readFragments sources = .ok customs) (htext : text ∈ sources) :
    ∃ document, Document.parse? text = some document ∧ ∀ f ∈ document.fragments, f ∈ customs := by
  obtain ⟨documents, hdocuments, h⟩ := bind_eq_ok.mp h
  cases h
  obtain ⟨document, hdocument, hparse⟩ := (mem_of_mapM hdocuments).1 text htext
  exact ⟨document, Document.parse_eq_ok.mp hparse,
    fun f hf => List.mem_flatMap.mpr ⟨document, hdocument, hf⟩⟩

/-- A declaration is read exactly if it is complete and its queries can be parsed and hold one
fragment, which is made on its type. -/
lemma NodeDeclaration.read_eq_ok {d : NodeDeclaration} {index : Nat} {queries : Document}
    {idFragment : Fragment} :
    d.read index = .ok (queries, idFragment)
      ↔ d.type ≠ "" ∧ d.queries ≠ "" ∧ Document.parse? d.queries = some queries
        ∧ queries.fragments = [idFragment] ∧ idFragment.condition = d.type := by
  rw [NodeDeclaration.read]
  by_cases htype : d.type = ""
  · rw [htype]
    exact ⟨fun h => (by cases h), fun h => absurd rfl h.1⟩
  by_cases hqueries : d.queries = ""
  · rw [if_neg (by simpa using htype), hqueries]
    exact ⟨fun h => (by cases h), fun h => absurd rfl h.2.1⟩
  rw [if_neg (by simpa using htype), if_neg (by simpa using hqueries)]
  rw [← Document.parse_eq_ok]
  refine Iff.trans (bind_eq_ok (x := Document.parse d.queries)) ?_
  constructor
  · rintro ⟨document, hdocument, h⟩
    split at h
    · rename_i fragment hfragment
      by_cases hcondition : fragment.condition = d.type
      · rw [if_neg (by simpa using hcondition)] at h
        cases h
        exact ⟨htype, hqueries, hdocument, hfragment, hcondition⟩
      · rw [if_pos (by simpa using hcondition)] at h
        cases h
    · cases h
  · rintro ⟨-, -, hdocument, hfragment, hcondition⟩
    refine ⟨queries, hdocument, ?_⟩
    split
    · rename_i fragment hone
      cases hone.symm.trans hfragment
      rw [if_neg (by simpa using hcondition)]
      rfl
    · rename_i hnone
      exact absurd hfragment (hnone idFragment)

/-- The document of a node type before anything is left out. -/
def assemble (schema : Schema) (declarations : List NodeDeclaration) (aliases : Aliases)
    (type : String) (queries : Document) (nodeFragments otherFragments : List Fragment) :
    Document :=
  let document : Document := queries ++ (nodeFragments ++ otherFragments).map Definition.fragment
  let document := document.addSpreads schema type (nodeFragments.map (·.name))
  let document := document.addTypenames schema
  let document := document.addAliases schema (declarations.map (·.type)) aliases
  document.withVariables schema

section Success

variable {schema : Schema} {declarations : List NodeDeclaration} {aliases : Aliases}

/-- Of the stages only those that select type names and give aliases change the fragments. -/
lemma fragments_assemble {type : String} {queries : Document}
    {nodeFragments otherFragments : List Fragment} :
    (assemble schema declarations aliases type queries nodeFragments otherFragments).fragments
      = (queries.fragments ++ (nodeFragments ++ otherFragments)).map fun f =>
        (f.rewrite schema typenameRewriting).rewrite schema
          (aliasRewriting schema (declarations.map (·.type)) aliases) := by
  simp only [assemble, Document.withVariables, Document.addAliases, Document.addTypenames,
    Document.addSpreads_eq, Document.rewrite_eq, Document.fragments_mapParts, List.map_map,
    Document.fragments_append, Document.fragments_map_fragment]
  rfl

/-- Of the stages only the one that declares variables leaves the selections of operations alone. -/
lemma exists_of_mem_operations_assemble {type : String} {queries : Document}
    {nodeFragments otherFragments : List Fragment} {o' : Operation}
    (h : o' ∈ (assemble schema declarations aliases type queries nodeFragments
      otherFragments).operations) :
    ∃ o ∈ queries.operations, o'.kind = o.kind
      ∧ o'.selections = (((o.rewrite schema (spreadRewriting schema type
          (nodeFragments.map (·.name)))).rewrite schema typenameRewriting).rewrite schema
            (aliasRewriting schema (declarations.map (·.type)) aliases)).selections := by
  simp only [assemble, Document.withVariables, Document.addAliases, Document.addTypenames,
    Document.addSpreads_eq, Document.rewrite_eq, Document.operations_mapParts, List.map_map,
    Document.operations_append, Document.operations_map_fragment, List.append_nil] at h
  obtain ⟨o, ho, rfl⟩ := List.mem_map.mp h
  exact ⟨o, ho, rfl, rfl⟩

lemma removeIdDuplicates_eq_ok {document result : Document} {type idFragment : String} :
    document.removeIdDuplicates schema type idFragment = .ok result
      ↔ ∃ found, document.fragments.find? (·.name == idFragment) = some found
        ∧ document.removeFragments (Document.idDuplicates schema type found
            (Document.otherThanFirst idFragment document.fragments)) = result := by
  rw [Document.removeIdDuplicates]
  cases document.fragments.find? (·.name == idFragment) with
  | none => simp
  | some found => simp

/-- A document is compiled exactly if all operations are named and the ID fragment is within their
reach. -/
lemma compileDocument_eq_ok {d : NodeDeclaration} {queries result : Document}
    {nodeFragments otherFragments : List Fragment} {idFragment : String} :
    (compileDocument schema declarations d queries nodeFragments otherFragments aliases
        idFragment).outcome = .ok result
      ↔ ∃ document, assemble schema declarations aliases d.type queries nodeFragments otherFragments
            = document
        ∧ document.allNamed = true
        ∧ ∃ found, document.pruned.fragments.find? (·.name == idFragment) = some found
          ∧ document.pruned.removeFragments (Document.idDuplicates schema d.type found
              (Document.otherThanFirst idFragment document.pruned.fragments)) = result := by
  rw [compileDocument]
  simp only [Report.outcome_bind_eq_ok, Report.outcome_of, Document.outcome_declareVariables,
    Document.removeUnused_eq_ok, removeIdDuplicates_eq_ok]
  constructor
  · rintro ⟨document, hdocument, -, ⟨hnamed, rfl⟩, hrest⟩
    exact ⟨document, Except.ok.inj hdocument, hnamed, hrest⟩
  · rintro ⟨document, rfl, hnamed, hrest⟩
    exact ⟨_, rfl, _, ⟨hnamed, rfl⟩, hrest⟩

lemma compileEach_cons_eq_ok {nodeFragments : Keyed (List Fragment)}
    {otherFragments : List Fragment} {index : Nat} {d : NodeDeclaration} {ds : List NodeDeclaration}
    {pairs : List (String × Document)} :
    (compileEach schema declarations nodeFragments otherFragments aliases index (d :: ds)).outcome
        = .ok pairs
      ↔ ∃ queries idFragment document rest, d.read index = .ok (queries, idFragment)
        ∧ (compileDocument schema declarations d queries
            ((Keyed.get? nodeFragments d.type).getD []) otherFragments aliases
            idFragment.name).outcome = .ok document
        ∧ (compileEach schema declarations nodeFragments otherFragments aliases (index + 1)
            ds).outcome = .ok rest
        ∧ (d.type, document) :: rest = pairs := by
  rw [compileEach]
  simp only [Report.outcome_bind_eq_ok, Report.outcome_of]
  constructor
  · rintro ⟨⟨queries, idFragment⟩, hread, document, hdocument, rest, hrest, hpairs⟩
    exact ⟨queries, idFragment, document, rest, hread, hdocument, hrest, Except.ok.inj hpairs⟩
  · rintro ⟨queries, idFragment, document, rest, hread, hdocument, hrest, rfl⟩
    exact ⟨(queries, idFragment), hread, document, hdocument, rest, hrest, rfl⟩

/-- The walk over custom fragments. -/
def usageWalk (schema : Schema) (references : References) (customs : List Fragment) : UsageWalk :=
  ⟨schema, references, Keyed.ofPairs (customs.map fun f => (f.name, f.condition))⟩

/-- What the walk over custom fragments finds. -/
def usageEvents (schema : Schema) (references : References) (customs : List Fragment) :
    List UsageEvent :=
  customs.flatMap (usageWalk schema references customs).fragmentEvents

lemma compileQueries_eq_ok {sources : List String} {documents : Keyed Document} :
    (compileQueries schema declarations sources aliases).outcome = .ok documents
      ↔ ∃ customs references usages pairs, readFragments sources = .ok customs
        ∧ referenceFragments schema declarations = .ok references
        ∧ Usages.ofEvents (usageEvents schema references customs) = usages
        ∧ (compileEach schema declarations
            (nodeFragments schema declarations usages references customs)
            (otherFragments schema declarations references customs) aliases 0
            declarations).outcome = .ok pairs
        ∧ Keyed.ofPairs pairs = documents := by
  rw [compileQueries]
  simp only [Report.outcome_bind_eq_ok, Report.outcome_of]
  constructor
  · rintro ⟨customs, hcustoms, references, hreferences, usages, husages, pairs, hpairs, hdocuments⟩
    exact ⟨customs, references, usages, pairs, hcustoms, hreferences, Except.ok.inj husages, hpairs,
      Except.ok.inj hdocuments⟩
  · rintro ⟨customs, references, usages, pairs, hcustoms, hreferences, rfl, hpairs, rfl⟩
    exact ⟨customs, hcustoms, references, hreferences, _, rfl, pairs, hpairs, rfl⟩

/-- The warnings of the walk over custom fragments are given, also if compiling fails later. -/
lemma mem_warnings_compileQueries {sources : List String} {customs : List Fragment}
    {references : References} {warning : Warning} (hcustoms : readFragments sources = .ok customs)
    (hreferences : referenceFragments schema declarations = .ok references)
    (h : .warned warning ∈ usageEvents schema references customs) :
    warning ∈ (compileQueries schema declarations sources aliases).warnings := by
  have hwarning : warning ∈ (typeUsages schema customs references).warnings :=
    List.mem_filterMap.mpr ⟨_, h, rfl⟩
  have husages : (typeUsages schema customs references).outcome
      = .ok (Usages.ofEvents (usageEvents schema references customs)) := rfl
  rw [compileQueries, Report.bind_of_ok _ ((Report.outcome_of _).trans hcustoms),
    Report.bind_of_ok _ ((Report.outcome_of _).trans hreferences), Report.bind_of_ok _ husages]
  exact List.mem_append_right _ (List.mem_append_right _ (List.mem_append_left _ hwarning))

/-- A compiled document comes from a declaration of its type. -/
lemma exists_of_mem_compileEach {nodeFragments : Keyed (List Fragment)}
    {otherFragments : List Fragment} {index : Nat} {ds : List NodeDeclaration}
    {pairs : List (String × Document)} {type : String} {document : Document}
    (h : (compileEach schema declarations nodeFragments otherFragments aliases index ds).outcome
      = .ok pairs) (hmem : (type, document) ∈ pairs) :
    ∃ offset d queries idFragment, ds[offset]? = some d ∧ d.type = type
      ∧ d.read (index + offset) = .ok (queries, idFragment)
      ∧ (compileDocument schema declarations d queries
          ((Keyed.get? nodeFragments d.type).getD []) otherFragments aliases
          idFragment.name).outcome = .ok document := by
  induction ds generalizing index pairs with
  | nil =>
      cases h
      cases hmem
  | cons d ds ih =>
      obtain ⟨queries, idFragment, first, rest, hread, hdocument, hrest, rfl⟩ :=
        compileEach_cons_eq_ok.mp h
      rcases List.mem_cons.mp hmem with heq | hmem
      · cases heq
        exact ⟨0, d, queries, idFragment, rfl, rfl, hread, hdocument⟩
      · obtain ⟨offset, d', queries', idFragment', hd', htype, hread', hdocument'⟩ := ih hrest hmem
        refine ⟨offset + 1, d', queries', idFragment', hd', htype, ?_, hdocument'⟩
        rwa [Nat.add_assoc, Nat.add_comm 1] at hread'

end Success

end RemoteNodes
