import Mathlib.Tactic
import RemoteNodes.Proofs.Document.Spreads
import RemoteNodes.Proofs.Document.Success
import RemoteNodes.Proofs.Selection.Inclusion
/-!
Taking out the fragments that repeat the ID fragment, and where operations lead afterwards. Whatever
such a fragment spreads is spread by the ID fragment too, so that nothing is cut off, as long as the
ID fragment is not within its own reach.

* `Document.Deduplication`: a document, its ID fragment and what is left.
* `Deduplication.includes_of_mem`: in a document of distinct names, which fragments are taken out.
* `Deduplication.not_mem_of_chain`: **none of them leads to the ID fragment**.
* `Deduplication.reaches`: **operations lead to all fragments that are left**.
-/

namespace RemoteNodes

open Relation

namespace Document

variable {schema : Schema} {type idFragment name : String} {document result : Document}
  {found f : Fragment}

lemma mem_idDuplicates {others : List Fragment} :
    name ∈ idDuplicates schema type found others
      ↔ ∃ f ∈ others, (f.condition ∈ nodeTypeNames schema type
          ∧ selectionsInclude found.selections f.selections = true) ∧ f.name = name := by
  simp only [idDuplicates, List.mem_map, List.mem_filter, Bool.and_eq_true, List.contains_iff_mem,
    and_assoc]

lemma otherThanFirst_sublist (name : String) (fs : List Fragment) :
    (otherThanFirst name fs).Sublist fs := by
  induction fs with
  | nil => exact .slnil
  | cons f fs ih =>
      rw [otherThanFirst]
      split
      · exact List.sublist_cons_self f fs
      · exact ih.cons_cons f

/-- Of fragments with distinct names no other one than the first has its name. -/
lemma name_ne_of_mem_otherThanFirst {fs : List Fragment} (hnodup : (fs.map (·.name)).Nodup)
    (hf : f ∈ otherThanFirst name fs) : f.name ≠ name := by
  induction fs with
  | nil => cases hf
  | cons g fs ih =>
      obtain ⟨hfirst, hrest⟩ := List.nodup_cons.mp hnodup
      rw [otherThanFirst] at hf
      split at hf
      · rename_i hname
        rw [← beq_iff_eq.mp hname]
        exact fun h => hfirst (List.mem_map.mpr ⟨f, hf, h⟩)
      · rename_i hname
        rcases List.mem_cons.mp hf with rfl | hf
        · exact fun h => hname (beq_iff_eq.mpr h)
        · exact ih hrest hf

/-- A document, the ID fragment in it, and what is left without the fragments that repeat it. -/
structure Deduplication (schema : Schema) (type idFragment : String)
    (document result : Document) where
  /-- The ID fragment. -/
  found : Fragment
  find : document.fragments.find? (·.name == idFragment) = some found
  left : document.removeFragments
    (idDuplicates schema type found (otherThanFirst idFragment document.fragments)) = result

/-- Taking out the repetitions succeeds exactly if there is an ID fragment. -/
lemma exists_deduplication (h : document.removeIdDuplicates schema type idFragment = .ok result) :
    Nonempty (Deduplication schema type idFragment document result) := by
  obtain ⟨found, hfind, hleft⟩ := removeIdDuplicates_eq_ok.mp h
  exact ⟨⟨found, hfind, hleft⟩⟩

namespace Deduplication

variable (d : Deduplication schema type idFragment document result)

/-- The names of the fragments that are taken out. -/
def duplicates : List String :=
  idDuplicates schema type d.found (otherThanFirst idFragment document.fragments)

lemma left_eq : document.removeFragments d.duplicates = result := d.left

lemma found_mem : d.found ∈ document.fragments := List.mem_of_find?_eq_some d.find

lemma name_found : d.found.name = idFragment := by simpa using List.find?_some d.find

lemma spreads_iff {next : String} : result.Spreads name next
    ↔ document.Spreads name next ∧ name ∉ d.duplicates ∧ next ∉ d.duplicates :=
  (iff_of_eq (congrArg (Spreads · name next) d.left_eq.symm)).trans spreads_removeFragments

lemma reaches_iff : result.Reaches name ↔ document.ReachesPast d.duplicates name :=
  (iff_of_eq (congrArg (Reaches · name) d.left_eq.symm)).trans reaches_removeFragments_iff

/-- What chains of spreads lead to among the fragments that are left, operations lead to. -/
lemma reaches_of_chain {first : String}
    (ho : ∃ o ∈ document.operations, first ∈ spreadNamesIn o.selections)
    (hfirst : first ∉ d.duplicates) (hchain : ReflTransGen result.Spreads first name) :
    result.Reaches name := by
  obtain ⟨o, ho, hspread⟩ := ho
  refine d.reaches_iff.mpr ⟨o, ho, first, hspread, hfirst, ?_⟩
  exact ReflTransGen.mono (fun _ _ hedge => d.spreads_iff.mp hedge) _ _ hchain

/-- The ID fragment is left exactly if it is not taken out by its name. -/
lemma exists_idFragment_iff :
    (∃ f ∈ result.fragments, f.name = idFragment) ↔ idFragment ∉ d.duplicates := by
  have hfragments := (congrArg fragments d.left_eq.symm).trans (fragments_removeFragments _)
  simp only [hfragments, List.mem_map, List.mem_filter]
  constructor
  · rintro ⟨_, ⟨f, ⟨-, hkept⟩, rfl⟩, hname⟩
    rw [show f.name = idFragment from hname] at hkept
    simpa using hkept
  · intro h
    have hkept : (!d.duplicates.contains d.found.name) = true := by simpa [d.name_found] using h
    exact ⟨_, ⟨d.found, ⟨d.found_mem, hkept⟩, rfl⟩, d.name_found⟩

section Distinct

variable (hnodup : document.fragmentNames.Nodup)
include hnodup

/-- A fragment that is taken out is on the node type or one of its interfaces and selects nothing
beyond the ID fragment; it is another fragment than the ID fragment. -/
theorem includes_of_mem (hf : f ∈ document.fragments) (h : f.name ∈ d.duplicates) :
    f.name ≠ idFragment ∧ f.condition ∈ nodeTypeNames schema type
      ∧ selectionsInclude d.found.selections f.selections = true := by
  obtain ⟨g, hg, hrepeats, hname⟩ := mem_idDuplicates.mp h
  have hgf : g = f :=
    List.inj_on_of_nodup_map hnodup ((otherThanFirst_sublist _ _).subset hg) hf hname
  subst hgf
  exact ⟨name_ne_of_mem_otherThanFirst hnodup hg, hrepeats⟩

lemma idFragment_not_mem : idFragment ∉ d.duplicates := by
  intro h
  have hfound : d.found.name ∈ d.duplicates := by rwa [d.name_found]
  exact (d.includes_of_mem hnodup d.found_mem hfound).1 d.name_found

/-- What a fragment spreads that is taken out, the ID fragment spreads as well. -/
lemma spreads_idFragment {next : String} (h : name ∈ d.duplicates)
    (hedge : document.Spreads name next) : document.Spreads idFragment next := by
  obtain ⟨f, hf, rfl, hnext⟩ := hedge
  obtain ⟨-, -, hincludes⟩ := d.includes_of_mem hnodup hf h
  exact ⟨d.found, d.found_mem, d.name_found, spreadNamesIn_subset_of_include hincludes hnext⟩

variable (hcycle : ¬ TransGen document.Spreads idFragment idFragment)
include hcycle

/-- No fragment that is taken out leads to the ID fragment, which would lead to itself then. -/
theorem not_mem_of_chain (hchain : ReflTransGen document.Spreads name idFragment) :
    name ∉ d.duplicates := by
  intro h
  rcases hchain.cases_head with rfl | ⟨next, hedge, hrest⟩
  · exact d.idFragment_not_mem hnodup h
  · exact hcycle (.head' (d.spreads_idFragment hnodup h hedge) hrest)

include d in
/-- If operations lead to the ID fragment, they do so afterwards. -/
lemma reaches_idFragment (h : document.Reaches idFragment) : result.Reaches idFragment := by
  obtain ⟨o, ho, first, hfirst, hchain⟩ := h
  refine d.reaches_of_chain ⟨o, ho, hfirst⟩ (d.not_mem_of_chain hnodup hcycle hchain) ?_
  clear hfirst
  induction hchain using ReflTransGen.head_induction_on with
  | refl => exact .refl
  | head hedge hrest ih =>
      refine .head (d.spreads_iff.mpr ⟨hedge, ?_, ?_⟩) ih
      · exact d.not_mem_of_chain hnodup hcycle (.head hedge hrest)
      · exact d.not_mem_of_chain hnodup hcycle hrest

/-- If operations lead to the ID fragment and to one that is left, they lead to both afterwards. -/
theorem reaches (hid : document.Reaches idFragment) (h : document.Reaches name)
    (hname : name ∉ d.duplicates) : result.Reaches name := by
  have hid := d.reaches_idFragment hnodup hcycle hid
  obtain ⟨o, ho, first, hfirst, hchain⟩ := h
  -- the chain leads on from the last fragment in it that is taken out, and so from the ID fragment
  have hrest : result.Reaches name
      ∨ first ∉ d.duplicates ∧ ReflTransGen result.Spreads first name := by
    clear hfirst
    induction hchain using ReflTransGen.head_induction_on with
    | refl => exact .inr ⟨hname, .refl⟩
    | @head before next hedge _ ih =>
        rcases ih with hreached | ⟨hnext, hrest⟩
        · exact .inl hreached
        · by_cases hbefore : before ∈ d.duplicates
          · have hnew := d.spreads_iff.mpr ⟨d.spreads_idFragment hnodup hbefore hedge,
              d.idFragment_not_mem hnodup, hnext⟩
            exact .inl (hid.trans (.head hnew hrest))
          · exact .inr ⟨hbefore, .head (d.spreads_iff.mpr ⟨hedge, hbefore, hnext⟩) hrest⟩
  rcases hrest with hreached | ⟨hkept, hrest⟩
  · exact hreached
  · exact d.reaches_of_chain ⟨o, ho, hfirst⟩ hkept hrest

end Distinct

end Deduplication

end Document

end RemoteNodes
