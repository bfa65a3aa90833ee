import Mathlib.Tactic
import Mathlib.Logic.Relation
import RemoteNodes.Proofs.Document.Reachable
import RemoteNodes.Proofs.Document.Stages
/-!
The graph of spreads: fragments spread fragments, and operations lead to some of them.

* `Document.Spreads`, `Document.Reaches`, `Document.Acyclic`: edges, what operations lead to, and
  documents without cycles; `Document.acyclic_of_rank`.
* `Document.mem_reachable_iff`: **the walk along spreads finds exactly what chains of spreads lead
  to**.
* `Document.mem_spreadsOf_iff`, `Document.mem_used_iff_reaches`: with distinct names the walk
  follows the graph, and **pruning keeps what operations lead to**.
* `Document.reaches_of_mem_pruned`: pruning leaves nothing that operations do not lead to.
* `Document.spreads_removeFragments`, `Document.reaches_removeFragments_iff`: the edges and what
  operations lead to without some fragments.
-/

namespace RemoteNodes.Document

open Relation

variable {document : Document} {names : List String} {name first : String}

/-- A fragment of the first name spreads the second one. -/
def Spreads (document : Document) (name next : String) : Prop :=
  ∃ f ∈ document.fragments, f.name = name ∧ next ∈ spreadNamesIn f.selections

/-- An operation leads to a name along spreads. -/
def Reaches (document : Document) (name : String) : Prop :=
  ∃ o ∈ document.operations, ∃ first ∈ spreadNamesIn o.selections,
    ReflTransGen document.Spreads first name

/-- An operation leads to a name along spreads without passing any of some fragments. -/
def ReachesPast (document : Document) (names : List String) (name : String) : Prop :=
  ∃ o ∈ document.operations, ∃ first ∈ spreadNamesIn o.selections, first ∉ names
    ∧ ReflTransGen (fun name next => document.Spreads name next ∧ name ∉ names ∧ next ∉ names)
      first name

/-- No fragment leads back to itself along spreads. -/
def Acyclic (document : Document) : Prop := ∀ name, ¬ TransGen document.Spreads name name

lemma Reaches.trans {next : String} (h : document.Reaches name)
    (hnext : ReflTransGen document.Spreads name next) : document.Reaches next := by
  obtain ⟨o, ho, first, hfirst, hchain⟩ := h
  exact ⟨o, ho, first, hfirst, hchain.trans hnext⟩

/-- A document in which each spread leads to a lower rank has no cycle. -/
lemma acyclic_of_rank (rank : String → Nat)
    (h : ∀ name next, document.Spreads name next → rank next < rank name) : document.Acyclic := by
  have hchain {name next : String} (hchain : TransGen document.Spreads name next) :
      rank next < rank name := by
    induction hchain with
    | single hedge => exact h _ _ hedge
    | tail _ hedge ih => exact (h _ _ hedge).trans ih
  exact fun name hcycle => lt_irrefl _ (hchain hcycle)

/-- A document whose spreads are among those of one without cycles has none. -/
lemma Acyclic.mono {other : Document} (h : document.Acyclic)
    (hspreads : ∀ name next, other.Spreads name next → document.Spreads name next) :
    other.Acyclic :=
  fun name hcycle => h name (TransGen.mono hspreads name name hcycle)

/-! ### The walk along spreads -/

/-- The walk finds nothing that no chain leads to. -/
private lemma exists_chain_of_mem_reach {next : String → List String} {fuel position : Nat}
    {found : List String} (h : name ∈ reach next fuel position found) :
    ∃ first ∈ found, ReflTransGen (fun a b => b ∈ next a) first name := by
  induction fuel generalizing position found with
  | zero => exact ⟨name, h, .refl⟩
  | succ fuel ih =>
      rw [reach] at h
      split at h
      · exact ⟨name, h, .refl⟩
      · rename_i seen hseen
        obtain ⟨first, hfirst, hchain⟩ := ih h
        rcases mem_appendNew.mp hfirst with hfirst | hfirst
        · exact ⟨first, hfirst, hchain⟩
        · exact ⟨seen, List.mem_of_getElem? hseen, .head hfirst hchain⟩

/-- What is within reach of names is what chains of spreads lead to from them. -/
theorem mem_reachable_iff : name ∈ document.reachable names
    ↔ ∃ first ∈ names, ReflTransGen (fun a b => b ∈ document.spreadsOf a) first name := by
  constructor
  · intro h
    obtain ⟨first, hfirst, hchain⟩ := exists_chain_of_mem_reach h
    exact ⟨first, (mem_appendNew.mp hfirst).resolve_left List.not_mem_nil, hchain⟩
  · rintro ⟨first, hfirst, hchain⟩
    induction hchain with
    | refl => exact mem_reachable_of_mem hfirst
    | tail _ hedge ih => exact mem_reachable_of_mem_spreadsOf ih hedge

/-- Of fragments with distinct names each counts for its own. -/
lemma spreadsOf_eq (hnodup : document.fragmentNames.Nodup) {f : Fragment}
    (hf : f ∈ document.fragments) : document.spreadsOf f.name = spreadNamesIn f.selections := by
  rw [spreadsOf, find?_reverse_of_unique (·.name) hf fun other hother heq =>
    List.inj_on_of_nodup_map hnodup hother hf heq]

/-- Among fragments with distinct names the walk follows the graph of spreads. -/
lemma mem_spreadsOf_iff (hnodup : document.fragmentNames.Nodup) {next : String} :
    next ∈ document.spreadsOf name ↔ document.Spreads name next := by
  constructor
  · intro h
    rw [spreadsOf] at h
    split at h
    · rename_i f hf
      exact ⟨f, List.mem_reverse.mp (List.mem_of_find?_eq_some hf),
        by simpa using List.find?_some hf, h⟩
    · cases h
  · rintro ⟨f, hf, rfl, hnext⟩
    rwa [spreadsOf_eq hnodup hf]

/-- Among fragments with distinct names, what is within reach of names is what chains of spreads
lead to from them. -/
lemma mem_reachable_iff_spreads (hnodup : document.fragmentNames.Nodup) :
    name ∈ document.reachable names
      ↔ ∃ first ∈ names, ReflTransGen document.Spreads first name := by
  have hspreads : (fun a b => b ∈ document.spreadsOf a) = document.Spreads := by
    funext a b
    exact propext (mem_spreadsOf_iff hnodup)
  rw [mem_reachable_iff, hspreads]

/-! ### Pruning -/

lemma mem_used_iff : name ∈ document.used
    ↔ ∃ o ∈ document.operations,
        name ∈ document.reachable (spreadNamesIn (document.lastOperation o).selections) :=
  List.mem_flatMap

lemma lastOperation_mem {o : Operation} (ho : o ∈ document.operations) :
    document.lastOperation o ∈ document.operations := by
  rw [lastOperation]
  cases hfind : document.operations.reverse.find? (·.name? == o.name?) with
  | none => exact ho
  | some last => exact List.mem_reverse.mp (List.mem_of_find?_eq_some hfind)

/-- Of operations with distinct names each counts for its own. -/
lemma lastOperation_eq (hunique : (document.operations.map (·.name?)).Nodup) {o : Operation}
    (ho : o ∈ document.operations) : document.lastOperation o = o := by
  rw [lastOperation, find?_reverse_of_unique (·.name?) ho fun other hother heq =>
    List.inj_on_of_nodup_map hunique hother ho heq, Option.getD_some]

/-- With distinct names, the names within reach of the operations are those that operations lead
to. -/
lemma mem_used_iff_reaches (hunique : (document.operations.map (·.name?)).Nodup)
    (hnodup : document.fragmentNames.Nodup) : name ∈ document.used ↔ document.Reaches name := by
  rw [mem_used_iff]
  refine exists_congr fun o => and_congr_right fun ho => ?_
  rw [lastOperation_eq hunique ho, mem_reachable_iff_spreads hnodup]

/-- The last definition of a name that is within reach is left. -/
private lemma spreads_pruned {next : String} (hname : name ∈ document.used)
    (hnext : next ∈ document.spreadsOf name) : document.pruned.Spreads name next := by
  rw [spreadsOf] at hnext
  split at hnext
  · rename_i f hf
    have hfname : f.name = name := by simpa using List.find?_some hf
    refine ⟨f, ?_, hfname, hnext⟩
    rw [fragments_pruned, List.mem_filter, List.contains_iff_mem, hfname]
    exact ⟨List.mem_reverse.mp (List.mem_of_find?_eq_some hf), hname⟩
  · cases hnext

/-- After pruning, operations lead to every fragment that is left. -/
theorem reaches_of_mem_pruned {f : Fragment} (hf : f ∈ document.pruned.fragments) :
    document.pruned.Reaches f.name := by
  rw [fragments_pruned, List.mem_filter, List.contains_iff_mem] at hf
  obtain ⟨o, ho, hreach⟩ := mem_used_iff.mp hf.2
  obtain ⟨first, hfirst, hchain⟩ := mem_reachable_iff.mp hreach
  refine ⟨document.lastOperation o, ?_, first, hfirst, ?_⟩
  · rw [operations_pruned]
    exact lastOperation_mem ho
  · -- all along the chain names are within reach, so their fragments are left
    generalize f.name = name at hchain
    induction hchain with
    | refl => exact .refl
    | tail hbefore hedge ih =>
        refine ih.tail (spreads_pruned (mem_used_iff.mpr ⟨o, ho, ?_⟩) hedge)
        exact mem_reachable_iff.mpr ⟨first, hfirst, hbefore⟩

lemma spreads_of_spreads_pruned {next : String} (h : document.pruned.Spreads name next) :
    document.Spreads name next := by
  obtain ⟨f, hf, hname, hnext⟩ := h
  rw [fragments_pruned] at hf
  exact ⟨f, (List.mem_filter.mp hf).1, hname, hnext⟩

/-! ### Without some fragments -/

/-- The spreads that are left are those between fragments that are left. -/
lemma spreads_removeFragments {next : String} :
    (document.removeFragments names).Spreads name next
      ↔ document.Spreads name next ∧ name ∉ names ∧ next ∉ names := by
  simp only [Spreads, fragments_removeFragments, List.mem_map, List.mem_filter]
  constructor
  · rintro ⟨f', ⟨f, ⟨hf, hkept⟩, rfl⟩, rfl, hnext⟩
    rw [spreadNamesIn_dropSpreadsIn, List.mem_filter] at hnext
    exact ⟨⟨f, hf, rfl, hnext.1⟩, by simpa using hkept, by simpa using hnext.2⟩
  · rintro ⟨⟨f, hf, rfl, hnext⟩, hkept, hnextkept⟩
    refine ⟨_, ⟨f, ⟨hf, by simpa using hkept⟩, rfl⟩, rfl, ?_⟩
    rw [spreadNamesIn_dropSpreadsIn, List.mem_filter]
    exact ⟨hnext, by simpa using hnextkept⟩

/-- Operations lead to what they led to without passing the fragments that are left out. -/
theorem reaches_removeFragments_iff :
    (document.removeFragments names).Reaches name ↔ document.ReachesPast names name := by
  have hspreads : (document.removeFragments names).Spreads
      = fun name next => document.Spreads name next ∧ name ∉ names ∧ next ∉ names := by
    funext name next
    exact propext spreads_removeFragments
  simp only [Reaches, ReachesPast, hspreads, operations_removeFragments, List.mem_map]
  constructor
  · rintro ⟨_, ⟨o, ho, rfl⟩, first, hfirst, hchain⟩
    rw [spreadNamesIn_dropSpreadsIn, List.mem_filter] at hfirst
    exact ⟨o, ho, first, hfirst.1, by simpa using hfirst.2, hchain⟩
  · rintro ⟨o, ho, first, hfirst, hkept, hchain⟩
    refine ⟨_, ⟨o, ho, rfl⟩, first, ?_, hchain⟩
    rw [spreadNamesIn_dropSpreadsIn, List.mem_filter]
    exact ⟨hfirst, by simpa using hkept⟩

end RemoteNodes.Document
