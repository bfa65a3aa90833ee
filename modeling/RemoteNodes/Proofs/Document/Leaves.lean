import RemoteNodes.Proofs.Document.Identity
import RemoteNodes.Proofs.Document.Scoped
import RemoteNodes.Proofs.Fragment.Texts
import RemoteNodes.Proofs.Node.Recorded
/-!
Leaf fields of node types on their way from custom fragments through node fragments to a document.
They are recorded under the type at the name of the fragment, and the node fragment of that name has
them.

* `UsageWalk.selectsLeaf_kept`: narrowing leaves the leaves of a type.
* `Stages.mem_names_nodeFragments`, `Stages.selectsLeaf_of_mem_nodeFragments`: **a node type has a
  fragment of its own name, and each fragment of that name has the leaves of the type**.
* `Compilation.exists_typeFragment`, `Compilation.selectsLeaf_found`: **in a document that fragment
  stays, or the ID fragment has the leaves**.
-/

namespace RemoteNodes

/-! ### The walk over custom fragments -/

/-- A type with a leaf can be selected on, and defines it. -/
lemma Schema.HasLeaf.exists_composite {schema : Schema} {type leaf : String}
    (h : schema.HasLeaf type leaf) :
    ∃ t, schema.composite? type = some t ∧ t.defines leaf = true := by
  obtain ⟨t, field, ht, hfield, rfl, -, -⟩ := h
  have hfind {fields : List OutputField} (hfield : field ∈ fields) :
      (fields.find? (·.name == field.name)).isSome = true := by
    rw [List.find?_isSome]
    exact ⟨field, hfield, beq_self_eq_true _⟩
  have hdefines : t.isComposite = true ∧ (t.memberType? field.name).isSome = true := by
    rw [NamedType.fields] at hfield
    rw [NamedType.isComposite, NamedType.isObject, NamedType.isAbstract, NamedType.memberType?]
    cases hshape : t.shape with
    | object interfaces fields => simpa [hshape] using hfind (by simpa [hshape] using hfield)
    | interface interfaces fields => simpa [hshape] using hfind (by simpa [hshape] using hfield)
    | scalar | union _ | enum _ | input _ => simp [hshape] at hfield
  refine ⟨t, Schema.composite?_eq_some.mpr ⟨ht, hdefines.1⟩, ?_⟩
  rw [NamedType.defines, hdefines.2, Bool.or_true]

/-- Narrowing leaves the leaves of a type in the fragments on it. -/
lemma UsageWalk.selectsLeaf_kept {w : UsageWalk} {f : Fragment} {leaf : String}
    (hroot : w.schema.query? ≠ some f.condition ∧ w.schema.mutation? ≠ some f.condition)
    (hleaf : w.schema.HasLeaf f.condition leaf) (h : SelectsLeaf leaf f.selections) :
    SelectsLeaf leaf (w.kept f) := by
  obtain ⟨t, ht, hdefines⟩ := hleaf.exists_composite
  rw [kept, if_neg (by simp [hroot]), ht]
  exact h.narrowAll hdefines

/-! ### Node fragments -/

namespace Stages

variable {schema : Schema} {declarations : List NodeDeclaration} {aliases : Aliases}
  {type leaf : String} (c : Stages schema declarations aliases type)

/-- The leaves of a node type are recorded at its name. -/
lemma selectsLeaf_selectionsAt (hcustoms : ReadsDefaults schema declarations c.customs)
    (hdeclared : type ∈ declarations.map (·.type))
    (hroot : schema.query? ≠ some type ∧ schema.mutation? ≠ some type)
    (hleaf : schema.HasLeaf type leaf) :
    SelectsLeaf leaf (c.usages.selectionsAt type type) := by
  obtain ⟨d, hd, htype⟩ := List.mem_map.mp hdeclared
  obtain ⟨f, hf, hname⟩ := hcustoms.exists_of_declared d hd
  have hname := hname.trans htype
  have hcondition := (hcustoms.condition f hf).trans hname
  obtain ⟨alias?, hmem⟩ := UsageWalk.selectsLeaf_kept (w := c.walk) (by rwa [hcondition])
    (by rwa [hcondition]) (hcustoms.leaves f hf leaf (by rwa [hname]))
  have hfound := UsageWalk.found_of_mem_kept hmem
  rw [hcondition, hname] at hfound
  obtain ⟨s, hs, hsame⟩ := Usages.exists_same_of_found (c.mem_events.mpr ⟨f, hf, hfound⟩)
  rw [Selection.same, Bool.and_eq_true] at hsame
  exact ⟨alias?, eq_leaf_of_includes hsame.1 ▸ hs⟩

/-- A fragment of a node type that is named after it is made on it, and has its leaves. -/
lemma selectsLeaf_of_mem_nodeFragments (hcustoms : ReadsDefaults schema declarations c.customs)
    (hdeclared : type ∈ declarations.map (·.type)) (hplain : ¬ HasDoubleUnderscore type)
    (hroot : schema.query? ≠ some type ∧ schema.mutation? ≠ some type)
    (hleaf : schema.HasLeaf type leaf) {f : Fragment} (hf : f ∈ c.nodeFragments)
    (hname : f.name = type) : f.condition = type ∧ SelectsLeaf leaf f.selections := by
  obtain ⟨-, hne, heq⟩ := exists_of_mem_fragmentsFor c.records_usages hf
  -- whatever is recorded at the name comes from the custom fragment of the name
  obtain ⟨s, hs⟩ := List.exists_mem_of_ne_nil _ hne
  obtain ⟨g, hg, hfound⟩ := c.mem_events.mp (c.records_usages.found hs)
  obtain ⟨hcondition, hgname, -⟩ := UsageWalk.mem_kept_of_found (hname ▸ hplain) hfound
  have hcondition : f.condition = type := by
    rw [hcondition, hcustoms.condition g hg, ← hgname, hname]
  have hrecorded := c.selectsLeaf_selectionsAt hcustoms hdeclared hroot hleaf
  rw [hcondition, hname] at heq
  rw [heq]
  exact ⟨rfl, hrecorded.rewrite (keepsLeaves_shallow _)⟩

/-- A node type has a fragment of its own name. -/
lemma mem_names_nodeFragments (hcustoms : ReadsDefaults schema declarations c.customs)
    (hdeclared : type ∈ declarations.map (·.type))
    (hroot : schema.query? ≠ some type ∧ schema.mutation? ≠ some type)
    (hleaf : schema.HasLeaf type leaf) (htype : type ∈ c.types) :
    type ∈ c.nodeFragments.map (·.name) := by
  obtain ⟨d, hd, hdtype⟩ := List.mem_map.mp hdeclared
  obtain ⟨f, hf, hname⟩ := hcustoms.exists_of_declared d hd
  have hcustom : type ∈ c.customs.map (·.name) :=
    List.mem_map.mpr ⟨f, hf, hname.trans hdtype⟩
  obtain ⟨alias?, hmem⟩ := c.selectsLeaf_selectionsAt hcustoms hdeclared hroot hleaf
  exact (mem_names_fragmentsFor c.records_usages hcustom).mpr
    ⟨type, htype, List.ne_nil_of_mem hmem⟩

end Stages

/-! ### The fragments of a document -/

namespace Compilation

variable {schema : Schema} {declarations : List NodeDeclaration} {sources : List String}
  {aliases : Aliases} {type : String} {document : Document}
  (c : Compilation schema declarations sources aliases type document)

/-- A fragment after the stages that all fragments go through. -/
def staged (_ : Compilation schema declarations sources aliases type document) (f : Fragment) :
    Fragment :=
  (f.rewrite schema typenameRewriting).rewrite schema
    (aliasRewriting schema (declarations.map (·.type)) aliases)

lemma fragments_assembled : c.assembled.fragments
    = (c.idFragment :: (c.nodeFragments ++ c.sharedFragments)).map c.staged := by
  rw [Stages.assembled, fragments_assemble, c.queries_fragments]
  rfl

lemma selectsLeaf_staged {leaf : String} {f : Fragment} (h : SelectsLeaf leaf f.selections) :
    SelectsLeaf leaf (c.staged f).selections :=
  (h.rewrite keepsLeaves_typenameRewriting).rewrite keepsLeaves_aliasRewriting

/-- The ID fragment that was found is that of the declaration, which comes first. -/
lemma found_eq : c.found = c.staged c.idFragment := by
  have hfound := c.found_reached
  rw [Stages.reached, Document.fragments_pruned, c.fragments_assembled, List.map_cons] at hfound
  have hname : (c.staged c.idFragment).name = c.idFragment.name := rfl
  have hused : c.assembled.used.contains (c.staged c.idFragment).name = true := by
    have hmem := (List.mem_filter.mp (List.mem_of_find?_eq_some hfound)).2
    have hsame : c.found.name = c.idFragment.name := by simpa using List.find?_some hfound
    rwa [hsame] at hmem
  rw [List.filter_cons, if_pos hused, List.find?_cons_of_pos (by simp [hname])] at hfound
  exact (Option.some.inj hfound).symm

/-- The ID fragment stays unless it is named like a fragment that repeats it. -/
lemma cleaned_found_mem (h : c.idFragment.name ∉ c.duplicates) :
    c.cleaned c.found ∈ document.fragments := by
  have hmem : c.found ∈ c.assembled.pruned.fragments := c.deduplication.found_mem
  rw [Document.fragments_pruned] at hmem
  obtain ⟨hmem, hused⟩ := List.mem_filter.mp hmem
  have hname : c.found.name = c.idFragment.name := c.deduplication.name_found
  rw [c.fragments_eq]
  refine List.mem_map_of_mem (List.mem_filter.mpr ⟨hmem, c.stays_iff.mpr ⟨?_, ?_⟩⟩)
  · simpa using hused
  · rwa [hname]

include c in
lemma type_mem_declared : type ∈ declarations.map (·.type) := by
  obtain ⟨index, d, hd, rfl, -⟩ := c.declared
  exact List.mem_map_of_mem (List.mem_of_getElem? hd)

lemma condition_eq : c.idFragment.condition = type := by
  obtain ⟨index, d, -, rfl, hread⟩ := c.declared
  exact (NodeDeclaration.read_eq_ok.mp hread).2.2.2.2

lemma type_mem_types : type ∈ c.types := by
  have hmem := c.condition_idFragment
  rwa [c.condition_eq] at hmem

section Leaves

variable {leaf : String} (hcustoms : ReadsDefaults schema declarations c.customs)
  (hplain : ¬ HasDoubleUnderscore type)
  (hroot : schema.query? ≠ some type ∧ schema.mutation? ≠ some type)
  (hid : c.idFragment.name ≠ type) (hleaf : schema.HasLeaf type leaf)
include hcustoms hroot hleaf

section

include hplain hid

/-- Whatever fragment of the type's name goes into the document has the leaves of the type. -/
lemma selectsLeaf_of_mem_assembled {f : Fragment} (hf : f ∈ c.assembled.fragments)
    (hname : f.name = type) : f.condition = type ∧ SelectsLeaf leaf f.selections := by
  rw [c.fragments_assembled] at hf
  obtain ⟨g, hg, rfl⟩ := List.mem_map.mp hf
  rcases List.mem_cons.mp hg with rfl | hg
  · exact absurd hname hid
  rcases List.mem_append.mp hg with hg | hg
  · obtain ⟨hcondition, hleaves⟩ := c.selectsLeaf_of_mem_nodeFragments hcustoms c.type_mem_declared
      hplain hroot hleaf hg hname
    exact ⟨hcondition, c.selectsLeaf_staged hleaves⟩
  · -- the shared fragments are made on other types than the node types
    obtain ⟨custom, hcustom, hheader, hshared⟩ :=
      c.mem_sharedFragments.mp ⟨g, hg, (rfl : g.header = (g.name, g.condition))⟩
    obtain ⟨hcustomName, hcondition⟩ := Prod.mk.inj hheader
    refine absurd ?_ hshared
    rw [← hcondition, hcustoms.condition custom hcustom, hcustomName, show g.name = type from hname]
    exact c.type_mem_allTypes c.type_mem_types

/-- If the fragment of the type's name repeats the ID fragment, that one has the leaves of the
type. -/
lemma selectsLeaf_found (h : type ∈ c.duplicates) : SelectsLeaf leaf c.found.selections := by
  obtain ⟨f, hf, ⟨-, hincludes⟩, hname⟩ := c.mem_duplicates.mp h
  have hf := (Document.otherThanFirst_sublist _ _).subset hf
  rw [Stages.reached, Document.fragments_pruned] at hf
  exact (c.selectsLeaf_of_mem_assembled hcustoms hplain hroot hid hleaf
    (List.mem_filter.mp hf).1 hname).2.of_selectionsInclude hincludes

end

/-- The type has a fragment of its own name. -/
lemma exists_typeFragment (hplain : ¬ HasDoubleUnderscore type) (hused : type ∈ c.assembled.used)
    (hkept : type ∉ c.duplicates) :
    ∃ f ∈ document.fragments, f.name = type ∧ f.condition = type
      ∧ SelectsLeaf leaf f.selections := by
  obtain ⟨g, hg, hname⟩ := List.mem_map.mp
    (c.mem_names_nodeFragments hcustoms c.type_mem_declared hroot hleaf c.type_mem_types)
  obtain ⟨hcondition, hleaves⟩ := c.selectsLeaf_of_mem_nodeFragments hcustoms c.type_mem_declared
    hplain hroot hleaf hg hname
  refine ⟨c.cleaned (c.staged g), ?_, hname, hcondition,
    (c.selectsLeaf_staged hleaves).dropSpreadsIn _⟩
  rw [c.fragments_eq]
  refine List.mem_map_of_mem (List.mem_filter.mpr ⟨?_, c.stays_iff.mpr ?_⟩)
  · rw [c.fragments_assembled]
    exact List.mem_map_of_mem (List.mem_cons_of_mem _ (List.mem_append_left _ hg))
  · rw [show (c.staged g).name = type from hname]
    exact ⟨hused, hkept⟩

end Leaves

end Compilation

end RemoteNodes
