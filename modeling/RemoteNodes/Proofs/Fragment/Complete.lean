import Mathlib
import RemoteNodes.Proofs.Fragment.TypeFragments
import RemoteNodes.Proofs.Response.Gathering
/-!
What default fragments select. A default fragment reaches everything that fields lead to, up to
other node types and to types that are met again on the way.

* `Leg`, `Follows`: a chain of fields from a type, each with the composite type that it has and the
  object type that it leads to.
* `Leg.Leaves.opened`: inlining opens the fragments of both types of a leg.
* `Follows.selects`: so what lies at the end of a chain is selected.
* `defaultFragments_complete`: **default fragments select every leaf field at the end of every chain
  without nodes and repetitions**.
-/

namespace RemoteNodes

/-- Values of a scalar type or of an enumeration have no fields. -/
def NamedType.IsLeaf (t : NamedType) : Prop :=
  t.shape = .scalar ∨ ∃ values, t.shape = .enum values

/-- Whether a field has values without fields: its type is a scalar type or an enumeration. -/
def OutputField.IsLeaf (schema : Schema) (field : OutputField) : Prop :=
  ∃ t, schema.namedType? field.type = some t ∧ t.IsLeaf

lemma OutputField.IsLeaf.composite? {schema : Schema} {field : OutputField}
    (h : field.IsLeaf schema) : schema.composite? field.type.namedType = none := by
  obtain ⟨t, ht, hleaf⟩ := h
  rw [Schema.namedType?] at ht
  rw [Schema.composite?, ht, Option.filter_eq_none_iff]
  rintro _ ⟨⟩
  rcases hleaf with hshape | ⟨values, hshape⟩
  · simp [NamedType.isComposite, NamedType.isObject, NamedType.isAbstract, hshape]
  · simp [NamedType.isComposite, NamedType.isObject, NamedType.isAbstract, hshape]

/-! ### Chains -/

/-- A leg of a chain: a field, the composite type that it has, and the type of the object that it
leads to. -/
structure Leg where
  field : OutputField
  composite : NamedType
  object : NamedType

namespace Leg

/-- The types that a leg leads to, by name. A type that is the type of the object itself counts
once. -/
def names (leg : Leg) : List String :=
  if leg.composite = leg.object then [leg.object.name] else [leg.composite.name, leg.object.name]

/-- The step that a leg is on the path to a field. -/
def step (leg : Leg) : String × String := (leg.field.name, leg.object.name)

/-- A leg leaves a type by a field of it whose required arguments are supplied, and leads to an
object of the field's composite type or of one of its possible types. Neither of both is a node
type or a node interface. -/
structure Leaves (schema : Schema) (references : References) (resolvers : List ArgumentResolver)
    (t : NamedType) (leg : Leg) : Prop where
  field_mem : leg.field ∈ t.fields
  supplied : Supplied schema resolvers t.name leg.field
  type_composite : schema.composite? leg.field.type.namedType = some leg.composite
  type_object : schema.type? leg.object.name = some leg.object
  isObject : leg.object.isObject = true
  object_possible : leg.object = leg.composite
    ∨ leg.composite.isAbstract = true ∧ leg.object ∈ schema.possibleTypes leg.composite
  reference_composite : Keyed.get? references leg.composite.name = none
  reference_object : Keyed.get? references leg.object.name = none

end Leg

/-- A chain of legs from one type to another. -/
inductive Follows (schema : Schema) (references : References) (resolvers : List ArgumentResolver) :
    NamedType → List Leg → NamedType → Prop
  | nil {t : NamedType} : Follows schema references resolvers t [] t
  | cons {t last : NamedType} {leg : Leg} {legs : List Leg}
      (hleg : leg.Leaves schema references resolvers t)
      (hrest : Follows schema references resolvers leg.object legs last) :
      Follows schema references resolvers t (leg :: legs) last

section Chains

variable {schema : Schema} {resolvers : List ArgumentResolver} {x : Inlining} {t : NamedType}
  {around : List String} {ss ss' : List Selection} {s' : Selection} {f : Fragment} {leg : Leg}

/-! ### Inlining -/

namespace Inlining

lemma inlineAll_eq_mapM (x : Inlining) (around : List String) (ss : List Selection) :
    x.inlineAll around ss = ss.mapM (x.inline around) := by
  induction ss with
  | nil => rw [inlineAll, List.mapM_nil]; rfl
  | cons s ss ih =>
      rw [inlineAll, List.mapM_cons, ih]
      cases x.inline around s with
      | error fault => rfl
      | ok s' => cases ss.mapM (x.inline around) <;> rfl

lemma exists_mem_inlineAll (h : x.inlineAll around ss = .ok ss') {s : Selection} (hs : s ∈ ss) :
    ∃ s', x.inline around s = .ok s' ∧ s' ∈ ss' := by
  rw [inlineAll_eq_mapM] at h
  obtain ⟨s', hmem, hs'⟩ := (mem_of_mapM h).1 s hs
  exact ⟨s', hs', hmem⟩

/-- A field of composite type keeps its place, with what inlining makes of its set. -/
lemma exists_of_inline_field {alias? : Option String} {name : String} {arguments : List Argument}
    {directives : List Directive}
    (h : x.inline around (.field alias? name arguments directives (some ss)) = .ok s') :
    ∃ ss', x.inlineAll around ss = .ok ss'
      ∧ s' = .field alias? name arguments directives (some ss') := by
  rw [inline] at h
  cases hss : x.inlineAll around ss with
  | error fault => rw [hss] at h; cases h
  | ok ss' =>
      rw [hss] at h
      cases h
      exact ⟨ss', rfl, rfl⟩

/-- An inline fragment keeps its place, with what inlining makes of its set. -/
lemma exists_of_inline_inline {condition? : Option String} {directives : List Directive}
    (h : x.inline around (.inline condition? directives ss) = .ok s') :
    ∃ ss', x.inlineAll around ss = .ok ss' ∧ s' = .inline condition? directives ss' := by
  rw [inline] at h
  cases hss : x.inlineAll around ss with
  | error fault => rw [hss] at h; cases h
  | ok ss' =>
      rw [hss] at h
      cases h
      exact ⟨ss', rfl, rfl⟩

/-- Inlining of selections that succeeds inlines each of them. -/
lemma exists_of_inlineAll_cons {s : Selection} (h : x.inlineAll around (s :: ss) = .ok ss') :
    ∃ s' rest, x.inline around s = .ok s' ∧ x.inlineAll around ss = .ok rest
      ∧ ss' = s' :: rest := by
  rw [inlineAll] at h
  cases hs : x.inline around s with
  | error fault => rw [hs] at h; cases h
  | ok s' =>
      cases hss : x.inlineAll around ss with
      | error fault => rw [hs, hss] at h; cases h
      | ok rest =>
          rw [hs, hss] at h
          cases h
          exact ⟨s', rest, rfl, rfl, rfl⟩

/-- Inlining that succeeds opens the fragment of every spread that is not open around it. -/
lemma exists_opened {name : String} {directives : List Directive}
    (h : x.inline around (.spread name directives) = .ok s') (hname : name ∉ around) :
    ∃ f ss', x.find? name = some f ∧ x.inlineAll (name :: around) f.selections = .ok ss'
      ∧ s' = .inline (some name) [] ss' := by
  cases hf : x.find? name with
  | none =>
      rw [inline_of_find?_eq_none hname hf] at h
      cases h
  | some f =>
      rw [inline_of_find? hname hf] at h
      cases hss : x.inlineAll (name :: around) f.selections with
      | error fault => rw [hss] at h; cases h
      | ok ss' =>
          rw [hss] at h
          cases h
          exact ⟨f, ss', rfl, hss, rfl⟩

/-- The fragment of a composite type without a reference is opened as it was made. -/
lemma exists_opened_type (hx : typeFragments schema resolvers = .ok x.fragments)
    (ht : schema.composite? t.name = some t) (hreference : Keyed.get? x.references t.name = none)
    (h : x.inlineAll around ss = .ok ss') (hs : .spread t.name [] ∈ ss)
    (hname : t.name ∉ around) :
    ∃ f inner, typeFragment schema resolvers t = .ok f
      ∧ x.inlineAll (t.name :: around) f.selections = .ok inner
      ∧ .inline (some t.name) [] inner ∈ ss' := by
  obtain ⟨s', hs', hmem⟩ := exists_mem_inlineAll h hs
  obtain ⟨f, inner, hf, hinner, rfl⟩ := exists_opened hs' hname
  have hget : Keyed.get? x.fragments t.name = some f := by simpa [find?, hreference] using hf
  obtain ⟨htype, hcomposite⟩ := Schema.composite?_eq_some.mp ht
  exact ⟨f, inner, typeFragment_of_get? hx htype hcomposite hget, hinner, hmem⟩

end Inlining

/-- Where a leg leads, inlining opens the fragments of its types, so that whatever the fragment of
the object's type selects there is collected for the object. -/
lemma Leg.Leaves.opened (hleg : leg.Leaves schema x.references resolvers t)
    (hx : typeFragments schema resolvers = .ok x.fragments)
    (h : x.inlineAll around [.spread leg.composite.name []] = .ok ss')
    (hnames : ∀ name ∈ leg.names, name ∉ around) :
    ∃ f inner, typeFragment schema resolvers leg.object = .ok f
      ∧ (∃ around', x.inlineAll around' f.selections = .ok inner
        ∧ ∀ name ∈ around', name ∈ leg.names ∨ name ∈ around)
      ∧ ∀ (ex : Execution) s, ex.Gathers schema [] leg.object.name inner s →
          ex.Gathers schema [] leg.object.name ss' s := by
  obtain ⟨-, -, hcomposite, hobject, hisObject, hpossible, hreference, hreference'⟩ := hleg
  obtain ⟨htype, hisComposite⟩ := Schema.composite?_eq_some.mp hcomposite
  obtain hname := Schema.name_of_type? htype
  have htype' : schema.type? leg.composite.name = some leg.composite := hname ▸ htype
  have hcomposite' := Schema.composite?_eq_some.mpr ⟨htype', hisComposite⟩
  rcases hpossible with heq | ⟨habstract, hpossible⟩
  · have hlegs : leg.names = [leg.composite.name] := by rw [names, if_pos heq.symm, heq]
    obtain ⟨f, inner, hf, hinner, hmem⟩ := Inlining.exists_opened_type hx hcomposite' hreference h
      List.mem_cons_self (hnames _ (by simp [hlegs]))
    refine ⟨f, inner, heq ▸ hf, ⟨_, hinner, by simp [hlegs]⟩, fun ex s hs => ?_⟩
    refine .inline hmem ex.admits_nil (fun condition hcondition => ?_) hs
    cases hcondition
    exact .inl (by rw [heq])
  · have hne : leg.composite ≠ leg.object := by
      intro heq
      rw [heq, NamedType.not_isAbstract_of_isObject hisObject] at habstract
      cases habstract
    have hne' : leg.object.name ≠ leg.composite.name := fun heq =>
      hne (Option.some.inj (htype'.symm.trans (heq ▸ hobject)))
    have hlegs : leg.names = [leg.composite.name, leg.object.name] := by rw [names, if_neg hne]
    obtain ⟨g, outer, hg, houter, hmem⟩ := Inlining.exists_opened_type hx hcomposite' hreference h
      List.mem_cons_self (hnames _ (by simp [hlegs]))
    rw [typeFragment_of_isAbstract habstract] at hg
    cases hg
    obtain ⟨f, inner, hf, hinner, hmem'⟩ := Inlining.exists_opened_type hx
      (Schema.composite?_eq_some.mpr ⟨hobject, Schema.isComposite_of_isObject hisObject⟩)
      hreference' houter (List.mem_map_of_mem hpossible)
      (by simpa [hne'] using hnames _ (by simp [hlegs]))
    refine ⟨f, inner, hf, ⟨_, hinner, ?_⟩, fun ex s hs => ?_⟩
    · simp only [hlegs, List.mem_cons]
      tauto
    · refine .inline hmem ex.admits_nil (fun condition hcondition => ?_)
        (.inline hmem' ex.admits_nil (fun condition hcondition => ?_) hs)
      · cases hcondition
        exact .inr ⟨_, htype', Schema.isSubType_of_mem_possibleTypes hpossible⟩
      · cases hcondition
        exact .inl rfl

/-- What lies at the end of a chain is selected by the fragment of the type where it begins, as far
as none of the types on the way is met again. -/
lemma Follows.selects {legs : List Leg} {last : NamedType} {leaf : OutputField}
    (h : Follows schema x.references resolvers t legs last)
    (hx : typeFragments schema resolvers = .ok x.fragments)
    (hobject : t.isObject = true) (hf : typeFragment schema resolvers t = .ok f)
    (hss : x.inlineAll around f.selections = .ok ss')
    (hnodup : (legs.flatMap Leg.names).Nodup)
    (hnames : ∀ name ∈ legs.flatMap Leg.names, name ∉ around)
    (hleaf : leaf ∈ last.fields) (hsupplied : Supplied schema resolvers last.name leaf)
    (hisLeaf : leaf.IsLeaf schema) (ex : Execution) :
    ex.Selects schema [] t.name ss' (legs.map Leg.step) leaf.name := by
  have habstract := NamedType.not_isAbstract_of_isObject hobject
  induction h generalizing f around ss' with
  | nil =>
      obtain ⟨arguments, -, hmem⟩ := exists_field_of_typeFragment hf habstract hleaf hsupplied
      rw [hisLeaf.composite?, Option.map_none] at hmem
      obtain ⟨s', hs', hmem⟩ := Inlining.exists_mem_inlineAll hss hmem
      rw [Inlining.inline] at hs'
      cases hs'
      exact .leaf (.field hmem ex.admits_nil)
  | @cons t last leg legs hleg hrest ih =>
      obtain ⟨arguments, -, hmem⟩ :=
        exists_field_of_typeFragment hf habstract hleg.field_mem hleg.supplied
      rw [hleg.type_composite, Option.map_some] at hmem
      obtain ⟨s', hs', hmem⟩ := Inlining.exists_mem_inlineAll hss hmem
      obtain ⟨inner, hinner, rfl⟩ := Inlining.exists_of_inline_field hs'
      rw [List.flatMap_cons] at hnodup hnames
      obtain ⟨-, hnodup, hdisjoint⟩ := List.nodup_append.mp hnodup
      obtain ⟨g, inner', hg, ⟨around', hinner', haround'⟩, hgathers⟩ :=
        hleg.opened hx hinner fun name hname => hnames name (List.mem_append_left _ hname)
      have hclosed : ∀ name ∈ legs.flatMap Leg.names, name ∉ around' := by
        intro name hname hopen
        rcases haround' name hopen with hleg | haround
        · exact hdisjoint name hleg name hname rfl
        · exact hnames name (List.mem_append_right _ hname) haround
      have hselects := ih hleg.isObject hg hinner' hnodup hclosed hleaf hsupplied
        (NamedType.not_isAbstract_of_isObject hleg.isObject)
      exact .step (.field hmem ex.admits_nil) (hselects.of_gathers (hgathers ex))

end Chains

/-- The default fragment of a node type selects every leaf field, with supplied arguments, that
fields lead to from the type: along any chain of fields with supplied arguments, for any types of
the objects on the way, as long as these types and the declared types of the fields are no node
types and none of them comes twice. -/
theorem defaultFragments_complete {schema : Schema} {declarations : List NodeDeclaration}
    {aliases : Aliases} {resolvers : List ArgumentResolver} {fragments : Keyed Fragment}
    (h : defaultFragments schema declarations aliases resolvers = .ok fragments) :
    ∃ references, referenceFragments schema declarations = .ok references
      ∧ ∀ d ∈ declarations, ∃ t f, schema.type? d.type = some t
        ∧ Keyed.get? fragments d.type = some f
        ∧ ∀ legs last leaf, Follows schema references resolvers t legs last →
          (legs.flatMap Leg.names).Nodup → leaf ∈ last.fields → leaf.IsLeaf schema →
          Supplied schema resolvers last.name leaf → ∀ (ex : Execution) (document : Document),
            ex.Selects schema document d.type f.selections (legs.map Leg.step) leaf.name := by
  obtain ⟨x, htyped, hreferences, -, hdefault⟩ := exists_of_defaultFragments h
  refine ⟨x.references, hreferences, fun d hd => ?_⟩
  obtain ⟨t, g, inlined, ht, hobject, hg, hinlined, hget⟩ := hdefault d hd
  refine ⟨t, _, ht, hget, fun legs last leaf hlegs hnodup hleaf hisLeaf hsupplied ex document => ?_⟩
  rw [Fragment.inlined] at hinlined
  cases hss : x.inlineAll [] g.selections with
  | error fault => rw [hss] at hinlined; cases hinlined
  | ok ss =>
      rw [hss] at hinlined
      cases hinlined
      have hselects := hlegs.selects htyped hobject hg hss hnodup (by simp) hleaf hsupplied hisLeaf
        ex
      rw [Schema.name_of_type? ht] at hselects
      refine (hselects.addAliases _).unwrapSet.mono fun f hf => ?_
      exact absurd hf List.not_mem_nil

/-! ### A type with a cycle -/

/-- A type that can be listed, which has pets. -/
def ownerType : NamedType :=
  ⟨"Foo", .object [] [⟨"id", .named "ID", []⟩, ⟨"pets", .list (.named "Pet"), []⟩]⟩

/-- What can be a pet. -/
def petType : NamedType := ⟨"Pet", .union ["Dog", "Foo"]⟩

/-- A type of pets, which are friends of pets. -/
def dogType : NamedType :=
  ⟨"Dog", .object [] [⟨"name", .named "String", []⟩, ⟨"friend", .named "Pet", []⟩]⟩

/-- A schema with pets. -/
def petSchema : Schema where
  types := [⟨"ID", .scalar⟩, ⟨"String", .scalar⟩, ownerType, petType, dogType,
    ⟨"Query", .object [] [⟨"allFoo", .list (.named "Foo"), []⟩]⟩]
  directives := []
  query? := some "Query"

/-- The default fragment of the type. -/
def petFragment : Fragment where
  name := "Foo"
  condition := "Foo"
  selections := [.field (some "remoteId") "id" [] [] none,
    .plain "pets" (some [
      .inline (some "Dog") [] [.plain "name",
        .plain "friend" (some [.field (some "remoteTypeName") "__typename" [] [] none])],
      .inline (some "Foo") [] [.field (some "remoteTypeName") "__typename" [] [] none,
        .field (some "remoteId") "id" [] [] none]])]

lemma referenceFragments_pet :
    referenceFragments petSchema [fooDeclaration] = .ok fooReferences := by
  rw [referenceFragments, typeReferences, read_fooDeclaration]
  rfl

set_option maxRecDepth 10000 in
lemma defaultFragments_pet :
    defaultFragments petSchema [fooDeclaration] [] [] = .ok [("Foo", petFragment)] := by
  rw [defaultFragments, referenceFragments_pet]
  cbv

lemma leaves_pets : Leg.Leaves petSchema fooReferences [] ownerType
    ⟨⟨"pets", .list (.named "Pet"), []⟩, petType, dogType⟩ where
  field_mem := by decide
  supplied := nofun
  type_composite := rfl
  type_object := rfl
  isObject := rfl
  object_possible := .inr ⟨rfl, List.mem_cons_self⟩
  reference_composite := rfl
  reference_object := rfl

/-- An execution in which no variable holds. -/
def falseExecution : Execution := ⟨fun _ => false, fun _ => none⟩

/-- The pets' names are selected, for those that are no nodes. -/
theorem defaultFragments_complete_pet :
    falseExecution.Selects petSchema [] "Foo" petFragment.selections [("pets", "Dog")] "name" := by
  obtain ⟨references, hreferences, h⟩ := defaultFragments_complete defaultFragments_pet
  obtain rfl := Except.ok.inj (referenceFragments_pet.symm.trans hreferences)
  obtain ⟨t, f, ht, hf, hselects⟩ := h fooDeclaration List.mem_cons_self
  obtain rfl := Option.some.inj ht
  obtain rfl := Option.some.inj hf
  have hleaf : OutputField.IsLeaf petSchema ⟨"name", .named "String", []⟩ := ⟨_, rfl, .inl rfl⟩
  exact hselects _ dogType _ (.cons leaves_pets .nil) (by decide) (by decide) hleaf nofun
    falseExecution []

end RemoteNodes
