import Mathlib.Tactic
import RemoteNodes.Proofs.Node.Reference
import RemoteNodes.Proofs.Schema.Lawful
/-!
Which types have references: the node types, and interfaces that stand for node types only.

* `IsNode`: a type that is declared to be fetched as nodes.
* `declaredReferences`, `declares_of_get?`: the references of node types alone.
* `isNode_or_interface_of_get?`: **what a reference belongs to**, in any schema.
* `isNode_of_get?`, `exists_reference_of_isNode`: in a schema that keeps the rules of the language,
  an object type has a reference exactly if it is a node type.
-/

namespace RemoteNodes

/-- A type that is declared to be fetched as nodes. -/
def IsNode (declarations : List NodeDeclaration) (type : String) : Prop :=
  ∃ d ∈ declarations, d.type = type

/-- A node type is declared with the ID fragment. -/
lemma Declares.isNode {declarations : List NodeDeclaration} {type : String} {queries : Document}
    {idFragment : Fragment} (h : Declares declarations type queries idFragment) :
    IsNode declarations type := by
  obtain ⟨index, d, hd, htype, -⟩ := h
  exact ⟨d, List.mem_of_getElem? hd, htype⟩

/-- Of a look-up that succeeds for a whole list, each member has given something. -/
lemma exists_of_mapM_eq_some {α β : Type} {f : α → Option β} {xs : List α} {ys : List β}
    (h : xs.mapM f = some ys) : ∀ x ∈ xs, ∃ y ∈ ys, f x = some y := by
  induction xs generalizing ys with
  | nil => simp
  | cons x xs ih =>
      rw [List.mapM_cons] at h
      obtain ⟨y, hy, h⟩ := Option.bind_eq_some_iff.mp h
      obtain ⟨rest, hrest, h⟩ := Option.bind_eq_some_iff.mp h
      cases h
      refine List.forall_mem_cons.mpr ⟨⟨y, List.mem_cons_self, hy⟩, fun x hx => ?_⟩
      obtain ⟨y', hy', heq⟩ := ih hrest x hx
      exact ⟨y', List.mem_cons_of_mem _ hy', heq⟩

variable {schema : Schema} {declarations : List NodeDeclaration} {references : References}
  {name : String} {f : Fragment}

/-- The references of node types, by their names. -/
def declaredReferences (entries : List (NamedType × Fragment)) : References :=
  Keyed.ofPairs (entries.map fun p => (p.1.name, p.2))

/-- Each declaration gives the type that it names. -/
lemma map_name_typeReferences {index : Nat} {ds : List NodeDeclaration}
    {entries : List (NamedType × Fragment)} (h : typeReferences schema index ds = .ok entries) :
    entries.map (·.1.name) = ds.map (·.type) := by
  induction ds generalizing index entries with
  | nil =>
      cases h
      rfl
  | cons d ds ih =>
      rw [typeReferences] at h
      obtain ⟨⟨queries, idFragment⟩, -, h⟩ := bind_eq_ok.mp h
      cases ht : (schema.type? d.type).filter (·.isObject) with
      | none =>
        simp only [ht] at h
        cases h
      | some t =>
        simp only [ht] at h
        obtain ⟨rest, hrest, h⟩ := bind_eq_ok.mp h
        cases h
        have hname := Schema.name_of_type? (Option.filter_eq_some_iff.mp ht).1
        rw [List.map_cons, List.map_cons, ih hrest, hname]

/-- The references of node types have the names of the declared types as keys. -/
lemma keys_entries {entries : List (NamedType × Fragment)}
    (h : typeReferences schema 0 declarations = .ok entries) :
    Keyed.keys (entries.map fun p => (p.1.name, p.2)) = declarations.map (·.type) := by
  rw [← map_name_typeReferences h, Keyed.keys, List.map_map]
  rfl

/-- What stands under a name among the references of node types is made of the ID fragment of that
type. -/
lemma declares_of_get? {entries : List (NamedType × Fragment)}
    (h : typeReferences schema 0 declarations = .ok entries)
    (hget : Keyed.get? (declaredReferences entries) name = some f) :
    ∃ queries idFragment, Declares declarations name queries idFragment
      ∧ f = idFragment.reference name ∧ schema.IsObject name := by
  obtain ⟨⟨t, f'⟩, hentry, heq⟩ := List.mem_map.mp (Keyed.mem_of_get?_ofPairs hget)
  cases heq
  obtain ⟨index, d, queries, idFragment, hd, hread, htype, rfl⟩ :=
    exists_of_mem_typeReferences h hentry
  obtain ⟨ht, hobject⟩ := Option.filter_eq_some_iff.mp htype
  have hname : t.name = d.type := Schema.name_of_type? ht
  dsimp only
  rw [Nat.zero_add] at hread
  rw [hname]
  exact ⟨queries, idFragment, ⟨index, d, hd, rfl, hread⟩, rfl, t, ht, hobject⟩

/-- A name stands among the references of node types if it is that of a node type. -/
lemma exists_get?_declaredReferences_iff {entries : List (NamedType × Fragment)}
    (h : typeReferences schema 0 declarations = .ok entries) :
    (∃ g, Keyed.get? (declaredReferences entries) name = some g) ↔ IsNode declarations name := by
  constructor
  · rintro ⟨g, hg⟩
    obtain ⟨_, _, hdeclares, -⟩ := declares_of_get? h hg
    exact hdeclares.isNode
  · rintro ⟨d, hd, rfl⟩
    refine Keyed.exists_get?_ofPairs ?_
    rw [← Keyed.keys, keys_entries h]
    exact List.mem_map_of_mem hd

/-- **What a reference belongs to**: a node type, of whose ID fragment it is made, or an interface
that node types implement and whose possible types are all node types. -/
theorem isNode_or_interface_of_get?
    (h : referenceFragments schema declarations = .ok references)
    (hget : Keyed.get? references name = some f) :
    (∃ queries idFragment, Declares declarations name queries idFragment
        ∧ f = idFragment.reference name ∧ schema.IsObject name)
      ∨ ∃ t ∈ schema.types, name ∈ t.interfaces ∧ ∃ i, schema.type? name = some i
        ∧ ∀ p ∈ schema.possibleTypes i, IsNode declarations p.name := by
  obtain ⟨entries, hentries, h⟩ := bind_eq_ok.mp h
  cases h
  rcases Keyed.mem_of_get?_overlay hget with hget | hget
  · obtain ⟨name', hname', hf⟩ := List.mem_filterMap.mp hget
    obtain ⟨f', hf', heq⟩ := Option.map_eq_some_iff.mp hf
    cases heq
    refine .inr ?_
    obtain ⟨t, ht, himplements⟩ := List.mem_flatMap.mp (List.mem_eraseDups.mp hname')
    obtain ⟨⟨t, g⟩, hentry, rfl⟩ := List.mem_map.mp ht
    obtain ⟨-, d, -, -, -, -, hobject, -⟩ := exists_of_mem_typeReferences hentries hentry
    refine ⟨t, Schema.mem_of_type? (Option.filter_eq_some_iff.mp hobject).1, himplements, ?_⟩
    obtain ⟨i, hi, hf'⟩ := Option.bind_eq_some_iff.mp hf'
    obtain ⟨fragments, hfragments, -⟩ := Option.bind_eq_some_iff.mp hf'
    refine ⟨i, hi, fun p hp => ?_⟩
    obtain ⟨g, -, hg⟩ := exists_of_mapM_eq_some hfragments p hp
    obtain ⟨queries, idFragment, hdeclares, -⟩ := declares_of_get? hentries hg
    exact hdeclares.isNode
  · exact .inl (declares_of_get? hentries hget)

/-- An object type that has a reference is a node type. -/
lemma isNode_of_get? (hschema : schema.Lawful)
    (h : referenceFragments schema declarations = .ok references) (hobject : schema.IsObject name)
    (hget : Keyed.get? references name = some f) : IsNode declarations name := by
  rcases isNode_or_interface_of_get? h hget with ⟨_, _, hdeclares, -⟩ | ⟨t, ht, himpl, i, hi, -⟩
  · exact hdeclares.isNode
  · obtain ⟨o, ho, hisObject⟩ := hobject
    obtain rfl := Option.some.inj (ho.symm.trans hi)
    simp [hschema.interface t ht name himpl o ho] at hisObject

/-- Each node type has a reference. -/
lemma exists_get?_of_isNode (h : referenceFragments schema declarations = .ok references)
    (hnode : IsNode declarations name) : ∃ f, Keyed.get? references name = some f := by
  obtain ⟨entries, hentries, h⟩ := bind_eq_ok.mp h
  cases h
  obtain ⟨f, hf⟩ := (exists_get?_declaredReferences_iff hentries).mpr hnode
  exact Keyed.exists_get?_overlay _ hf

/-- Node types are object types, each with a reference that is made of its ID fragment. -/
theorem exists_reference_of_isNode (hschema : schema.Lawful)
    (h : referenceFragments schema declarations = .ok references)
    (hnode : IsNode declarations name) :
    schema.IsObject name ∧ ∃ queries idFragment, Declares declarations name queries idFragment
      ∧ Keyed.get? references name = some (idFragment.reference name) := by
  obtain ⟨f, hget⟩ := exists_get?_of_isNode h hnode
  rcases isNode_or_interface_of_get? h hget with
    ⟨queries, idFragment, hdeclares, rfl, hobject⟩ | ⟨t, ht, himpl, i, hi, -⟩
  · exact ⟨hobject, queries, idFragment, hdeclares, hget⟩
  · -- a node type is an object type, so it is no interface of another type
    obtain ⟨entries, hentries, -⟩ := bind_eq_ok.mp h
    obtain ⟨d, hd, rfl⟩ := hnode
    obtain ⟨o, ho, hisObject⟩ := isObject_of_typeReferences hentries hd
    obtain rfl := Option.some.inj (ho.symm.trans hi)
    simp [hschema.interface t ht d.type himpl o ho] at hisObject

end RemoteNodes
