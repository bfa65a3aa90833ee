import Mathlib.Tactic
import RemoteNodes.Proofs.Selection.Scope
import RemoteNodes.Schema.Basic
/-!
Schemas that keep the rules of the language, and selections that move from a type to one under it.

* `Schema.Applies`: a type condition applies to a type; `Schema.Conforms`: the rules, which can be
  decided.
* `Schema.Below`: the types that selections are made on, one under the other.
* `Schema.Below.field`: a field that is defined above is defined below, with a type below.
* `Selection.Scoped.below`: **what is in scope on a type is in scope on every type under it**.
-/

namespace RemoteNodes

lemma NamedType.not_isAbstract_of_isObject {t : NamedType} (h : t.isObject = true) :
    t.isAbstract = false := by
  rw [NamedType.isObject] at h
  rw [NamedType.isAbstract]
  split at h
  · rename_i hshape
    rw [hshape]
  · cases h

namespace Schema

/-- Whether a type condition applies to values of a type: it names that type or one above it. -/
def Applies (schema : Schema) (condition type : String) : Prop :=
  condition = type ∨ ∃ t, schema.type? condition = some t ∧ schema.isSubType t type = true

/-- The rules for types: each name belongs to one type, fields have types that can be returned,
unions are made of object types, and what implements an interface has all of its fields, each with
the same type or one under it. -/
structure Conforms (schema : Schema) : Prop where
  distinct : (schema.types.map (·.name)).Nodup
  output : ∀ t ∈ schema.types, ∀ f ∈ t.fields, ∀ u, schema.namedType? f.type = some u →
    u.isOutput = true
  members : ∀ t ∈ schema.types, ∀ names, t.shape = .union names → ∀ name ∈ names,
    ∃ o, schema.type? name = some o ∧ o.isObject = true
  implementation : ∀ t ∈ schema.types, ∀ name ∈ t.interfaces, ∀ i, schema.type? name = some i →
    ∀ f ∈ i.fields, ∃ g, t.field? f.name = some g
      ∧ schema.Applies f.type.namedType g.type.namedType

variable {schema : Schema} {t o : NamedType} {name type above : String}

/-! ### Deciding the rules -/

/-- The members of a union. -/
def members (t : NamedType) : List String :=
  match t.shape with
  | .union names => names
  | _ => []

lemma mem_members : name ∈ members t ↔ ∃ names, t.shape = .union names ∧ name ∈ names := by
  rw [members]
  cases t.shape <;> simp

instance (schema : Schema) (condition type : String) : Decidable (schema.Applies condition type) :=
  inferInstanceAs (Decidable (condition = type
    ∨ ∃ t ∈ schema.type? condition, schema.isSubType t type = true))

lemma conforms_iff (schema : Schema) : schema.Conforms ↔ (schema.types.map (·.name)).Nodup
    ∧ (∀ t ∈ schema.types, ∀ f ∈ t.fields, ∀ u ∈ schema.namedType? f.type, u.isOutput = true)
    ∧ (∀ t ∈ schema.types, ∀ name ∈ members t, ∃ o ∈ schema.type? name, o.isObject = true)
    ∧ ∀ t ∈ schema.types, ∀ name ∈ t.interfaces, ∀ i ∈ schema.type? name, ∀ f ∈ i.fields,
      ∃ g ∈ t.field? f.name, schema.Applies f.type.namedType g.type.namedType := by
  constructor
  · intro h
    refine ⟨h.distinct, h.output, fun t ht name hname => ?_, h.implementation⟩
    obtain ⟨names, hshape, hname⟩ := mem_members.mp hname
    exact h.members t ht names hshape name hname
  · rintro ⟨hdistinct, houtput, hmembers, himplementation⟩
    exact ⟨hdistinct, houtput, fun t ht names hshape name hname =>
      hmembers t ht name (mem_members.mpr ⟨names, hshape, hname⟩), himplementation⟩

instance (schema : Schema) : Decidable schema.Conforms :=
  decidable_of_iff _ schema.conforms_iff.symm

/-! ### Types by name -/

/-- A list in which names are unambiguous gives each of its members under its name. -/
lemma find?_of_nodup {α : Type} {key : α → String} {xs : List α} (hnodup : (xs.map key).Nodup)
    {x : α} (hx : x ∈ xs) : xs.find? (fun y => key y == key x) = some x := by
  cases h : xs.find? (fun y => key y == key x) with
  | none => simpa using List.find?_eq_none.mp h x hx
  | some y =>
      have hname : key y = key x := by simpa using List.find?_some h
      rw [List.inj_on_of_nodup_map hnodup (List.mem_of_find?_eq_some h) hx hname]

lemma Conforms.type?_of_mem (hschema : schema.Conforms) (ht : t ∈ schema.types) :
    schema.type? t.name = some t :=
  find?_of_nodup hschema.distinct ht

lemma isComposite_of_isObject (h : t.isObject = true) : t.isComposite = true := by
  rw [NamedType.isComposite, h, Bool.true_or]

/-- A type with others under it is an interface or a union. -/
lemma isComposite_of_isSubType (h : schema.isSubType t type = true) : t.isComposite = true := by
  rw [isSubType] at h
  split at h
  · rename_i hshape
    simp [NamedType.isComposite, NamedType.isAbstract, hshape]
  · rename_i hshape
    simp [NamedType.isComposite, NamedType.isAbstract, hshape]
  · cases h

/-- Something can be selected on a type that lies under another one. -/
lemma Conforms.exists_of_isSubType (hschema : schema.Conforms) (ht : t ∈ schema.types)
    (h : schema.isSubType t type = true) : ∃ o, schema.composite? type = some o := by
  rw [isSubType] at h
  split at h
  · rename_i members hshape
    obtain ⟨o, ho, hobject⟩ :=
      hschema.members t ht members hshape type (List.contains_iff_mem.mp h)
    exact ⟨o, composite?_eq_some.mpr ⟨ho, isComposite_of_isObject hobject⟩⟩
  · obtain ⟨o, ho, hfits⟩ := List.any_eq_true.mp h
    simp only [Bool.and_eq_true, beq_iff_eq] at hfits
    obtain ⟨⟨hcomposite, rfl⟩, -⟩ := hfits
    exact ⟨o, composite?_eq_some.mpr ⟨hschema.type?_of_mem ho, hcomposite⟩⟩
  · cases h

/-- The possible types of a type lie under it. -/
lemma isSubType_of_mem_possibleTypes (h : o ∈ schema.possibleTypes t) :
    schema.isSubType t o.name = true := by
  cases hshape : t.shape with
  | union members =>
      rw [possibleTypes, hshape] at h
      obtain ⟨name, hname, ho⟩ := List.mem_filterMap.mp h
      obtain rfl := name_of_type? ho
      rw [isSubType, hshape]
      exact List.contains_iff_mem.mpr hname
  | interface interfaces fields =>
      obtain ⟨hmem, hobject, hinterface⟩ := possibleTypes_isObject hshape h
      rw [isSubType, hshape, List.any_eq_true]
      exact ⟨o, hmem, by simp [isComposite_of_isObject hobject, hinterface]⟩
  | scalar | object _ _ | enum _ | input _ =>
      rw [possibleTypes, hshape] at h
      cases h

/-- The possible types of a type are object types under it. -/
lemma Conforms.of_mem_possibleTypes (hschema : schema.Conforms) (ht : t ∈ schema.types)
    (h : o ∈ schema.possibleTypes t) :
    schema.composite? o.name = some o ∧ o.isObject = true
      ∧ schema.isSubType t o.name = true := by
  have hsub := isSubType_of_mem_possibleTypes h
  cases hshape : t.shape with
  | union members =>
      rw [possibleTypes, hshape] at h
      obtain ⟨name, hname, ho⟩ := List.mem_filterMap.mp h
      obtain ⟨o', ho', hobject⟩ := hschema.members t ht members hshape name hname
      obtain rfl := Option.some.inj (ho.symm.trans ho')
      obtain rfl := name_of_type? ho
      exact ⟨composite?_eq_some.mpr ⟨ho, isComposite_of_isObject hobject⟩, hobject, hsub⟩
  | interface interfaces fields =>
      obtain ⟨hmem, hobject, -⟩ := possibleTypes_isObject hshape h
      have hcomposite := isComposite_of_isObject hobject
      exact ⟨composite?_eq_some.mpr ⟨hschema.type?_of_mem hmem, hcomposite⟩, hobject, hsub⟩
  | scalar | object _ _ | enum _ | input _ =>
      rw [possibleTypes, hshape] at h
      cases h

/-! ### Fields -/

/-- Apart from introspection, a type has the fields that it declares. -/
lemma fieldDefinition?_of_not_meta (hname : isMetaName name = false) :
    schema.fieldDefinition? t name = t.field? name := by
  have hne {text : String} (htext : isMetaName text = true) : (name == text) = false := by
    rw [beq_eq_false_iff_ne]
    rintro rfl
    rw [htext] at hname
    cases hname
  rw [fieldDefinition?, hne (by decide +kernel), hne (by decide +kernel), hne (by decide +kernel)]
  rfl

/-- A field of an interface belongs to every type under it. Unions have no fields. -/
lemma Conforms.field?_of_isSubType (hschema : schema.Conforms) (ht : t ∈ schema.types)
    (ho : schema.type? type = some o) (h : schema.isSubType t type = true) {f : OutputField}
    (hf : t.field? name = some f) :
    ∃ g, o.field? name = some g ∧ schema.Applies f.type.namedType g.type.namedType := by
  have hname : f.name = name := by simpa using List.find?_some hf
  rw [isSubType] at h
  split at h
  · rename_i hshape
    rw [NamedType.field?, NamedType.fields, hshape] at hf
    cases hf
  · obtain ⟨o', ho', hfits⟩ := List.any_eq_true.mp h
    simp only [Bool.and_eq_true, beq_iff_eq, List.contains_iff_mem] at hfits
    obtain ⟨⟨-, rfl⟩, hinterface⟩ := hfits
    obtain rfl := Option.some.inj (ho.symm.trans (hschema.type?_of_mem ho'))
    have hg := hschema.implementation o ho' t.name hinterface t (hschema.type?_of_mem ht) f
      (List.mem_of_find?_eq_some hf)
    rwa [hname] at hg
  · cases h

/-! ### Types one under the other -/

/-- A type that selections are made on lies under another one, or is the same. -/
def Below (schema : Schema) (sub? sup? : Option NamedType) : Prop :=
  sub? = sup? ∨ ∃ t o, sup? = some t ∧ sub? = some o ∧ t ∈ schema.types
    ∧ schema.type? o.name = some o ∧ schema.isSubType t o.name = true

lemma Conforms.below_of_applies (hschema : schema.Conforms) (h : schema.Applies above type) :
    schema.Below (schema.composite? type) (schema.composite? above) := by
  rcases h with rfl | ⟨t, ht, hsub⟩
  · exact .inl rfl
  · obtain ⟨o, ho⟩ := hschema.exists_of_isSubType (mem_of_type? ht) hsub
    have htype := (composite?_eq_some.mp ho).1
    obtain rfl := name_of_type? htype
    have hcomposite := composite?_eq_some.mpr ⟨ht, isComposite_of_isSubType hsub⟩
    exact .inr ⟨t, o, hcomposite, ho, mem_of_type? ht, htype, hsub⟩

/-- A field that is defined on a type is defined on every type under it, and selections inside it
are made on a type under the one there. -/
theorem Below.field {sub? sup? : Option NamedType} (h : schema.Below sub? sup?)
    (hschema : schema.Conforms) (hname : isMetaName name = false)
    (hfield : (schema.fieldType? sup? name).isSome = true) :
    (schema.fieldType? sub? name).isSome = true
      ∧ schema.Below (schema.insideField? sub? name) (schema.insideField? sup? name) := by
  rcases h with rfl | ⟨t, o, rfl, rfl, ht, ho, hsub⟩
  · exact ⟨hfield, .inl rfl⟩
  have hdeclared (u : NamedType) :
      schema.fieldType? (some u) name = (u.field? name).map (·.type) := by
    rw [fieldType?, Option.bind_some, fieldDefinition?_of_not_meta hname]
  rw [hdeclared, Option.isSome_map] at hfield
  obtain ⟨f, hf⟩ := Option.isSome_iff_exists.mp hfield
  obtain ⟨g, hg, happlies⟩ := hschema.field?_of_isSubType ht ho hsub hf
  rw [insideField?, insideField?, hdeclared, hdeclared, hf, hg]
  exact ⟨rfl, hschema.below_of_applies happlies⟩

end Schema

/-- What is in scope on a type is in scope on every type under it. -/
theorem Selection.Scoped.below {schema : Schema} {s : Selection} {sub? sup? : Option NamedType}
    (h : s.Scoped schema sup?) (hschema : schema.Conforms) (hbelow : schema.Below sub? sup?) :
    s.Scoped schema sub? := by
  induction s using Selection.induct generalizing sub? sup? with
  | leaf alias? name arguments directives =>
      refine scoped_leaf.mpr (Bool.eq_false_or_eq_true (isMetaName name) |>.imp_right ?_)
      intro hname
      have hfield := (scoped_leaf.mp h).resolve_left (by simp [hname])
      exact (hbelow.field hschema hname hfield).1
  | composite alias? name arguments directives ss ih =>
      refine scoped_composite.mpr (Bool.eq_false_or_eq_true (isMetaName name) |>.imp_right ?_)
      intro hname
      obtain ⟨hfield, hss⟩ := (scoped_composite.mp h).resolve_left (by simp [hname])
      obtain ⟨hfield', hinside⟩ := hbelow.field hschema hname hfield
      exact ⟨hfield', scopedIn_iff.mpr fun s hs => ih s hs (scopedIn_iff.mp hss s hs) hinside⟩
  | spread fragment directives => exact scoped_spread
  | inline condition? directives ss ih =>
      refine scoped_inline.mpr (scopedIn_iff.mpr fun s hs => ?_)
      have hss := scopedIn_iff.mp (scoped_inline.mp h) s hs
      cases condition? with
      | none => exact ih s hs hss hbelow
      | some condition => exact hss

end RemoteNodes
