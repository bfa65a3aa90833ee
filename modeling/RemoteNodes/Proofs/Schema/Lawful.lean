import Mathlib.Tactic
import RemoteNodes.Proofs.Schema.Conforms
/-!
Schemas in which also the implemented interfaces keep the rules of the language, and which values
their types have.

* `Schema.Lawful`: what is implemented is an interface, together with all that it implements.
* `Schema.IsObject`: the name of an object type; `Schema.applies_iff_of_isObject`: a condition on
  one applies to that type only.
* `Schema.isSubType_iff`: which types lie under another one; `Schema.Lawful.applies_trans`: **a
  condition that applies to a type applies to the types under it**.
* `Schema.Conforms.mem_possibleTypes`: an object type under another one is a possible type of it.
-/

namespace RemoteNodes

namespace Schema

/-- The rules for types, with those for interfaces: a type implements interfaces only, and all the
interfaces that these implement. -/
structure Lawful (schema : Schema) : Prop extends schema.Conforms where
  interface : ∀ t ∈ schema.types, ∀ name ∈ t.interfaces, ∀ i, schema.type? name = some i →
    i.isObject = false
  transitive : ∀ t ∈ schema.types, ∀ name ∈ t.interfaces, ∀ i, schema.type? name = some i →
    ∀ above ∈ i.interfaces, above ∈ t.interfaces

lemma lawful_iff (schema : Schema) : schema.Lawful ↔ schema.Conforms
    ∧ (∀ t ∈ schema.types, ∀ name ∈ t.interfaces, ∀ i ∈ schema.type? name, i.isObject = false)
    ∧ ∀ t ∈ schema.types, ∀ name ∈ t.interfaces, ∀ i ∈ schema.type? name,
      ∀ above ∈ i.interfaces, above ∈ t.interfaces :=
  ⟨fun h => ⟨h.toConforms, h.interface, h.transitive⟩, fun ⟨h, h', h''⟩ => ⟨h, h', h''⟩⟩

instance (schema : Schema) : Decidable schema.Lawful := decidable_of_iff _ schema.lawful_iff.symm

/-- An object type has this name. -/
def IsObject (schema : Schema) (name : String) : Prop :=
  ∃ t, schema.type? name = some t ∧ t.isObject = true

variable {schema : Schema} {t o : NamedType} {condition name type object : String}

/-- No type lies under an object type. -/
lemma isSubType_of_isObject (h : t.isObject = true) (name : String) :
    schema.isSubType t name = false := by
  cases hshape : t.shape with
  | object interfaces fields => rw [isSubType, hshape]
  | scalar | interface _ _ | union _ | enum _ | input _ => simp [NamedType.isObject, hshape] at h

lemma applies_iff_of_isObject (h : schema.IsObject condition) :
    schema.Applies condition type ↔ condition = type := by
  refine ⟨fun happlies => ?_, .inl⟩
  obtain ⟨t, ht, hobject⟩ := h
  rcases happlies with rfl | ⟨u, hu, hsub⟩
  · rfl
  · obtain rfl := Option.some.inj (ht.symm.trans hu)
    simp [isSubType_of_isObject hobject] at hsub

/-- Selections can be made on what a condition on an object names. -/
lemma exists_composite?_of_applies (h : schema.Applies condition object)
    (hobject : schema.IsObject object) :
    ∃ u, schema.composite? condition = some u ∧ u.name = condition := by
  rcases h with rfl | ⟨u, hu, hsub⟩
  · obtain ⟨o, ho, hisObject⟩ := hobject
    exact ⟨o, composite?_eq_some.mpr ⟨ho, isComposite_of_isObject hisObject⟩, name_of_type? ho⟩
  · exact ⟨u, composite?_eq_some.mpr ⟨hu, isComposite_of_isSubType hsub⟩, name_of_type? hu⟩

/-- Under a union lie its members, and under an interface what implements it. -/
lemma isSubType_iff : schema.isSubType t type = true
    ↔ (∃ members, t.shape = .union members ∧ type ∈ members)
      ∨ (∃ interfaces fields, t.shape = .interface interfaces fields)
        ∧ ∃ o ∈ schema.types, o.name = type ∧ o.isComposite = true ∧ t.name ∈ o.interfaces := by
  cases hshape : t.shape with
  | union members => simp [isSubType, hshape]
  | interface interfaces fields => simp [isSubType, hshape, and_assoc, and_left_comm]
  | scalar | object _ _ | enum _ | input _ => simp [isSubType, hshape]

/-- A type with others under it is abstract. -/
lemma isAbstract_of_isSubType (h : schema.isSubType t type = true) : t.isAbstract = true := by
  rcases isSubType_iff.mp h with ⟨_, hshape, -⟩ | ⟨⟨_, _, hshape⟩, -⟩ <;>
    simp [NamedType.isAbstract, hshape]

/-- A condition that applies to a type applies to all types under it. -/
theorem Lawful.applies_trans (hschema : schema.Lawful) (h : schema.Applies condition type)
    (hobject : schema.Applies type object) : schema.Applies condition object := by
  rcases h with rfl | ⟨t, ht, hsub⟩
  · exact hobject
  rcases hobject with rfl | ⟨u, hu, hsub'⟩
  · exact .inr ⟨t, ht, hsub⟩
  obtain rfl := name_of_type? hu
  rcases isSubType_iff.mp hsub with ⟨members, hshape, hmem⟩ | ⟨hshape, v, hv, hname, -, hbelow⟩
  · -- under a union lie object types only
    obtain ⟨u', hu', hisObject⟩ := hschema.members t (mem_of_type? ht) members hshape u.name hmem
    obtain rfl := Option.some.inj (hu.symm.trans hu')
    simp [isSubType_of_isObject hisObject] at hsub'
  · have htype := hschema.type?_of_mem hv
    rw [hname] at htype
    obtain rfl := Option.some.inj (hu.symm.trans htype)
    rcases isSubType_iff.mp hsub' with ⟨members, hunion, -⟩ | ⟨-, o, ho, rfl, hcomposite, himpl⟩
    · rw [NamedType.interfaces, hunion] at hbelow
      cases hbelow
    · have habove := hschema.transitive o ho u.name himpl u hu t.name hbelow
      exact .inr ⟨t, ht, isSubType_iff.mpr (.inr ⟨hshape, o, ho, rfl, hcomposite, habove⟩)⟩

lemma Lawful.isTrans_applies (hschema : schema.Lawful) : IsTrans String schema.Applies :=
  ⟨fun _ _ _ => hschema.applies_trans⟩

lemma mem_types_of_mem_possibleTypes (h : o ∈ schema.possibleTypes t) : o ∈ schema.types := by
  cases hshape : t.shape with
  | union members =>
      rw [possibleTypes, hshape] at h
      obtain ⟨name, -, ho⟩ := List.mem_filterMap.mp h
      exact mem_of_type? ho
  | interface interfaces fields => exact (possibleTypes_isObject hshape h).1
  | scalar | object _ _ | enum _ | input _ =>
      rw [possibleTypes, hshape] at h
      cases h

/-- An object type under another type is a possible type of it. -/
lemma Conforms.mem_possibleTypes (hschema : schema.Conforms) (ho : schema.type? object = some o)
    (hisObject : o.isObject = true) (h : schema.isSubType t object = true) :
    o ∈ schema.possibleTypes t := by
  rcases isSubType_iff.mp h with ⟨members, hshape, hmem⟩
    | ⟨⟨interfaces, fields, hshape⟩, o', ho', rfl, -, himplements⟩
  · rw [possibleTypes, hshape]
    exact List.mem_filterMap.mpr ⟨object, hmem, ho⟩
  · obtain rfl := Option.some.inj (ho.symm.trans (hschema.type?_of_mem ho'))
    rw [possibleTypes, hshape]
    refine List.mem_flatMap.mpr ⟨o, ho', ?_⟩
    rw [if_pos hisObject, List.mem_replicate]
    exact ⟨(List.count_pos_iff.mpr himplements).ne', rfl⟩

end Schema

end RemoteNodes
