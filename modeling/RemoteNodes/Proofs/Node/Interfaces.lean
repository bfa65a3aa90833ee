import Mathlib.Tactic
import RemoteNodes.Proofs.Document.Names
import RemoteNodes.Proofs.Response.Narrowing
/-!
Custom fragments on interfaces, for the node types that implement them. Such a fragment is recorded
under the interface, and each node type takes over what is recorded under its interfaces. What is
recorded under a union belongs to no node type.

* `mem_nodeTypeNames`: a node type counts the interfaces of which it is a possible type.
* `interface_fragment_reaches`: **what a fragment on an interface asks for on objects of a node
  type, a fragment of the node type asks for**.
* `union_fragment_missing`: a fragment on a union that does not get there.
-/

namespace RemoteNodes

variable {schema : Schema} {declarations : List NodeDeclaration} {references : References}
  {customs : List Fragment} {f : Fragment} {i n : NamedType}

/-- A possible type of an interface lists it. -/
lemma exists_shape_of_mem_possibleTypes (hunion : i.isUnion = false)
    (hn : n ∈ schema.possibleTypes i) :
    (∃ interfaces fields, i.shape = .interface interfaces fields)
      ∧ n ∈ schema.types ∧ n.isObject = true ∧ i.name ∈ n.interfaces := by
  cases hshape : i.shape with
  | interface interfaces fields =>
      exact ⟨⟨_, _, rfl⟩, Schema.possibleTypes_isObject hshape hn⟩
  | union members => simp [NamedType.isUnion, hshape] at hunion
  | scalar | object _ _ | enum _ | input _ =>
      rw [Schema.possibleTypes, hshape] at hn
      cases hn

/-- A node type counts the interfaces of which it is a possible type. -/
lemma mem_nodeTypeNames (hdistinct : (schema.types.map (·.name)).Nodup)
    (hunion : i.isUnion = false) (hn : n ∈ schema.possibleTypes i) :
    i.name ∈ nodeTypeNames schema n.name := by
  obtain ⟨-, hmem, hobject, himplements⟩ := exists_shape_of_mem_possibleTypes hunion hn
  have htype : (schema.type? n.name).filter (·.isObject) = some n :=
    Option.filter_eq_some_iff.mpr ⟨Schema.find?_of_nodup hdistinct hmem, hobject⟩
  rw [nodeTypeNames, htype]
  exact List.mem_cons_of_mem _ himplements

/-- **Fragments on interfaces reach the nodes.** A field without selections that a custom fragment
on an interface asks for on objects of a node type, where it is defined, is asked for on these
objects by a fragment of the node type. -/
theorem interface_fragment_reaches (hdistinct : (schema.types.map (·.name)).Nodup)
    (references : References) (hf : f ∈ customs)
    (hroot : schema.query? ≠ some f.condition ∧ schema.mutation? ≠ some f.condition)
    (hi : schema.type? f.condition = some i) (hunion : i.isUnion = false)
    (hn : n ∈ schema.possibleTypes i) (hnode : IsNode declarations n.name) {x : Execution}
    {u : NamedType} {alias? : Option String} {name : String} {arguments : List Argument}
    {directives : List Directive}
    (h : x.GathersOn schema n.name i f.selections u (.field alias? name arguments directives none))
    (hdefines : u.defines name = true) :
    ∃ usages fragments, (typeUsages schema customs references).outcome = .ok usages
      ∧ Keyed.get? (nodeFragments schema declarations usages references customs) n.name
        = some fragments
      ∧ ∃ g ∈ fragments, schema.Applies g.condition n.name ∧ ∃ arguments' directives',
        sameArguments arguments' arguments = true
        ∧ x.Gathers schema [] n.name g.selections
          (.field alias? name arguments' directives' none) := by
  obtain ⟨hshape, hmem, hobject, himplements⟩ := exists_shape_of_mem_possibleTypes hunion hn
  have hsub : schema.isSubType i n.name = true := Schema.isSubType_iff.mpr
    (.inr ⟨hshape, n, hmem, rfl, Schema.isComposite_of_isObject hobject, himplements⟩)
  have hbegins : (usageWalk schema references customs).Begins f ⟨i, f.name, f.selections⟩ :=
    ⟨hroot, i, Schema.composite?_eq_some.mpr ⟨hi, Schema.isComposite_of_isSubType hsub⟩, rfl⟩
  -- what is left of the fragment is recorded at its name, which is never left out
  have hleft : x.Gathers schema [] n.name (narrowAll schema i f.selections)
      (.field alias? name arguments directives none) := (h.narrowAll hdefines rfl).gathers
  obtain ⟨recorded, hrecorded, s, hs, hincludes⟩ := hleft.exists_recorded hf hbegins .refl
  obtain ⟨arguments', directives', rfl, harguments, -⟩ :=
    Selection.exists_of_includes_leaf hincludes
  have hs := (Execution.gathers_iff_exists _).mpr ⟨recorded, hrecorded, hs⟩
  obtain ⟨d, hd, hdname⟩ := hnode
  refine ⟨_, _, rfl, hdname ▸ get?_nodeFragments hd, _,
    shallow_fragmentAt_mem_fragmentsFor (Usages.records_ofEvents _) ?_ hs.ne_nil
      (List.mem_map_of_mem hf), .inr ⟨i, by rwa [Schema.name_of_type? hi], hsub⟩, arguments',
    directives', harguments, hs.shallow_leaf _⟩
  exact mem_nodeTypeNames hdistinct hunion hn

/-- A custom fragment on an interface that asks for a field of one of its possible types. -/
def sizeFragment : Fragment where
  name := "Sizes"
  condition := "Named"
  selections := [.inline (some "Foo") [] [.plain "size"]]

/-- The interface that it is made on. -/
def namedType : NamedType :=
  ⟨"Named", .interface [] [⟨"id", .named "ID", []⟩, ⟨"name", .named "String", []⟩]⟩

/-- The possible type. -/
def sizedType : NamedType :=
  ⟨"Foo", .object ["Named"] [⟨"id", .named "ID", []⟩, ⟨"name", .named "String", []⟩,
    ⟨"size", .named "Int", []⟩]⟩

/-- The size is asked for by a fragment of the node type. -/
theorem interface_fragment_reaches_sizes : ∃ usages fragments,
    (typeUsages topSchema [sizeFragment] topReferences).outcome = .ok usages
    ∧ Keyed.get? (nodeFragments topSchema [fooDeclaration] usages topReferences [sizeFragment])
        "Foo" = some fragments
    ∧ ∃ g ∈ fragments, topSchema.Applies g.condition "Foo" ∧ ∃ arguments' directives',
      sameArguments arguments' [] = true
      ∧ Execution.Gathers ⟨fun _ => false, fun _ => none⟩ topSchema [] "Foo" g.selections
        (.field none "size" arguments' directives' none) :=
  interface_fragment_reaches (n := sizedType) (i := namedType) (u := sizedType) (by decide)
    topReferences (List.mem_singleton_self _) (by decide) rfl rfl (by decide)
    ⟨fooDeclaration, List.mem_singleton_self _, rfl⟩
    (.inline List.mem_cons_self (Execution.admits_nil _) (fun _ h => .inl (Option.some.inj h).symm)
      (.field List.mem_cons_self (Execution.admits_nil _)))
    (by decide +kernel)

/-! ### A fragment on a union -/

/-- A custom fragment on a union that asks for a field of one of its members. -/
def itemNameFragment : Fragment where
  name := "ItemName"
  condition := "Item"
  selections := [.inline (some "Foo") [] [.plain "name"]]

/-- The name is asked for on nodes, but no fragment of the node type asks for it. -/
theorem union_fragment_missing :
    itemSchema.type? itemNameFragment.condition = some itemType
    ∧ (itemSchema.query? ≠ some "Item" ∧ itemSchema.mutation? ≠ some "Item")
    ∧ fooType ∈ itemSchema.possibleTypes itemType ∧ IsNode [fooDeclaration] fooType.name
    ∧ (∀ x : Execution, x.GathersOn itemSchema fooType.name itemType itemNameFragment.selections
        fooType (.plain "name"))
    ∧ fooType.defines "name" = true
    ∧ ∃ usages, (typeUsages itemSchema [itemNameFragment] fooReferences).outcome = .ok usages
      ∧ Keyed.get? (nodeFragments itemSchema [fooDeclaration] usages fooReferences
        [itemNameFragment]) fooType.name = some [] := by
  refine ⟨rfl, by decide, by decide, ⟨fooDeclaration, List.mem_singleton_self _, rfl⟩, fun x => ?_,
    by decide +kernel, _, rfl, by cbv⟩
  exact .inline List.mem_cons_self x.admits_nil (fun _ h => .inl (Option.some.inj h).symm)
    (.field List.mem_cons_self x.admits_nil)

end RemoteNodes
