import Mathlib
import RemoteNodes.Proofs.Document.Compilation
import RemoteNodes.Proofs.Document.Duplicates
/-!
Nothing in a compiled document is unused, although fragments are taken out after those that are not
within reach.

* `spreads_assemble`: the stages add no spreads to fragments.
* `compileDocument_reaches`: **operations lead to every fragment of a compiled document**;
  `compileDocument_reaches_more`: what a fragment that is taken out leads to, too.
-/

namespace RemoteNodes

variable {schema : Schema} {declarations : List NodeDeclaration} {aliases : Aliases}
  {queries document : Document} {nodeFragments otherFragments : List Fragment}

/-! ### Spreads after the stages -/

/-- The stages give a fragment no spreads. -/
private lemma spreadNamesIn_stages_subset (f : Fragment) {types : List String} :
    spreadNamesIn ((f.rewrite schema typenameRewriting).rewrite schema
      (aliasRewriting schema types aliases)).selections ⊆ spreadNamesIn f.selections := by
  have hself : SetObeys (.spreading (· ∈ spreadNamesIn f.selections)) f.selections :=
    setObeys_spreading.mpr fun _ => id
  exact setObeys_spreading.mp
    (Fragment.setObeys_rewrite keeps_aliasRewriting
      (Fragment.setObeys_rewrite keeps_typenameRewriting hself))

lemma fragmentNames_assemble {type : String} :
    (assemble schema declarations aliases type queries nodeFragments otherFragments).fragmentNames
      = (queries ++ (nodeFragments ++ otherFragments).map Definition.fragment).fragmentNames := by
  rw [Document.fragmentNames, Document.fragmentNames, fragments_assemble, List.map_map,
    Document.fragments_append, Document.fragments_map_fragment]
  rfl

/-- The fragments of a document spread nothing that they did not spread before the stages. -/
lemma spreads_assemble {type name next : String}
    (h : (assemble schema declarations aliases type queries nodeFragments
      otherFragments).Spreads name next) :
    Document.Spreads (queries ++ (nodeFragments ++ otherFragments).map Definition.fragment)
      name next := by
  obtain ⟨f', hf', rfl, hnext⟩ := h
  rw [fragments_assemble] at hf'
  obtain ⟨f, hf, rfl⟩ := List.mem_map.mp hf'
  refine ⟨f, ?_, rfl, spreadNamesIn_stages_subset f hnext⟩
  rwa [Document.fragments_append, Document.fragments_map_fragment]

/-! ### Compiled documents -/

/-- Operations lead to every fragment of a document that is compiled of queries and fragments with
distinct names and without cycles of spreads. The operations may share names. -/
theorem compileDocument_reaches {d : NodeDeclaration} {idFragment : String}
    (hcompile : (compileDocument schema declarations d queries nodeFragments otherFragments aliases
      idFragment).outcome = .ok document)
    (hnames : (Document.fragmentNames
      (queries ++ (nodeFragments ++ otherFragments).map Definition.fragment)).Nodup)
    (hacyclic : Document.Acyclic
      (queries ++ (nodeFragments ++ otherFragments).map Definition.fragment)) :
    ∀ f ∈ document.fragments, document.Reaches f.name := by
  obtain ⟨assembled, rfl, -, found, hfind, hleft⟩ := compileDocument_eq_ok.mp hcompile
  let assembled := assemble schema declarations aliases d.type queries nodeFragments otherFragments
  let pruning : Document.Deduplication schema d.type idFragment assembled.pruned document :=
    ⟨found, hfind, hleft⟩
  have hnodup : assembled.pruned.fragmentNames.Nodup := by
    have hassembled : assembled.fragmentNames.Nodup := by rwa [fragmentNames_assemble]
    rw [Document.fragmentNames, Document.fragments_pruned]
    exact hassembled.sublist (List.filter_sublist.map _)
  have hacyclic : assembled.pruned.Acyclic :=
    hacyclic.mono fun name next h => spreads_assemble (Document.spreads_of_spreads_pruned h)
  have hid : assembled.pruned.Reaches idFragment := by
    rw [← pruning.name_found]
    exact Document.reaches_of_mem_pruned pruning.found_mem
  intro f' hf'
  rw [← pruning.left_eq, Document.fragments_removeFragments] at hf'
  obtain ⟨f, hf, rfl⟩ := List.mem_map.mp hf'
  obtain ⟨hf, hkept⟩ := List.mem_filter.mp hf
  have hreach : assembled.pruned.Reaches f.name := Document.reaches_of_mem_pruned hf
  exact pruning.reaches hnodup (hacyclic idFragment) hid hreach (by simpa using hkept)

/-- Queries that spread the ID fragment and one that repeats it, while both lead to a third one. -/
def moreQueries : Document := [
  .operation (fooOperation [.spread "Key" [], .spread "FooId" []]),
  .fragment { fooIdFragment with selections := [.plain "id", .spread "More" []] }]

/-- The fragment that repeats the ID fragment. -/
def repeatingFragment : Fragment where
  name := "Key"
  condition := "Foo"
  selections := [.plain "id", .spread "More" []]

/-- The fragment that both spread. -/
def moreFragment : Fragment where
  name := "More"
  condition := "Foo"
  selections := [.plain "name"]

/-- The document that is compiled from them. -/
def moreDocument : Document := [
  .operation (fooOperation [.field (some "remoteTypeName") "__typename" [] [] none,
    .spread "FooId" []]),
  .fragment { fooIdFragment with
    selections := [.field (some "remoteId") "id" [] [] none, .spread "More" []] },
  .fragment moreFragment]

set_option maxRecDepth 10000 in
lemma compileDocument_more :
    (compileDocument fooSchema [fooDeclaration] fooDeclaration moreQueries [repeatingFragment]
      [moreFragment] defaultAliases "FooId").outcome = .ok moreDocument :=
  rfl

/-- What only the ID fragment still spreads stays within reach. -/
theorem compileDocument_reaches_more : moreDocument.Reaches moreFragment.name := by
  refine compileDocument_reaches compileDocument_more (by decide) ?_ moreFragment
    (by simp [moreDocument, Document.fragments, Definition.fragment?])
  -- everything that is spread is the one fragment that spreads nothing
  have hranks : ∀ f ∈ Document.fragments (moreQueries
      ++ ([repeatingFragment] ++ [moreFragment]).map Definition.fragment),
      ∀ next ∈ spreadNamesIn f.selections, next = moreFragment.name
        ∧ f.name ≠ moreFragment.name := by
    decide
  refine Document.acyclic_of_rank (fun name => if name = moreFragment.name then 0 else 1) ?_
  rintro name next ⟨f, hf, rfl, hnext⟩
  obtain ⟨rfl, hname⟩ := hranks f hf next hnext
  simp [hname]

end RemoteNodes
