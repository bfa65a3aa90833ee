import Mathlib.Tactic
import RemoteNodes.Proofs.Schema.Conforms
import RemoteNodes.Proofs.Selection.Rule
import RemoteNodes.Selection.Narrowing
/-!
Selections in which the types on the way to every field are known: a field that holds selections is
defined where it is selected. Leaf fields do not count, and neither does what stands on a type that
is not known, where no object can be.

* `Selection.Tracked`, `TrackedIn`: such selections, at any depth.
* `Schema.Familiar`: the types that selections are narrowed for in any custom fragment.
* `trackedIn_narrowAll`: **narrowed selections are of this kind**, whatever was narrowed.
-/

namespace RemoteNodes

mutual
/-- The fields with selections in a selection on a type are defined where they are selected. -/
def Selection.Tracked (schema : Schema) (parent? : Option NamedType) : Selection → Prop
  | .field _ _ _ _ none => True
  | .field _ name _ _ (some selections) =>
    parent? = none ∨ isMetaName name = true ∨ ((schema.fieldType? parent? name).isSome = true
      ∧ TrackedIn schema (schema.insideField? parent? name) selections)
  | .spread .. => True
  | .inline condition? _ selections =>
    TrackedIn schema (schema.insideInline? parent? condition?) selections
/-- The fields with selections among selections on a type are defined where they are selected. -/
def TrackedIn (schema : Schema) (parent? : Option NamedType) : List Selection → Prop
  | [] => True
  | s :: ss => s.Tracked schema parent? ∧ TrackedIn schema parent? ss
end

/-- The fields with selections in a fragment are defined where they are selected. -/
def Fragment.Tracked (schema : Schema) (f : Fragment) : Prop :=
  TrackedIn schema (schema.composite? f.condition) f.selections

variable {schema : Schema} {parent? : Option NamedType} {ss : List Selection} {t : NamedType}

lemma trackedIn_iff : TrackedIn schema parent? ss ↔ ∀ s ∈ ss, s.Tracked schema parent? := by
  induction ss with
  | nil => simp [TrackedIn]
  | cons s ss ih => rw [TrackedIn, ih, List.forall_mem_cons]

/-! ### Types that selections are narrowed for -/

/-- A type that selections are narrowed for: one of the schema, or a scalar that stands in for a
type which is not known. -/
def Schema.Familiar (schema : Schema) (t : NamedType) : Prop :=
  t ∈ schema.types ∨ t.shape = .scalar

namespace Schema.Familiar

lemma resolve (type : TypeRef) : schema.Familiar (schema.resolve type) := by
  rw [Schema.resolve]
  cases h : schema.namedType? type with
  | none => exact .inr rfl
  | some u => exact .inl (mem_of_type? h)

lemma memberResult (t : NamedType) (name : String) :
    schema.Familiar (schema.memberResult t name) := by
  rw [Schema.memberResult]
  split
  · exact resolve _
  · exact .inr rfl

end Schema.Familiar

/-! ### Narrowing -/

/-- What a type defines besides meta fields is defined on it where it is the type of selections. -/
lemma Schema.fieldType?_of_composite {name : String} (ht : t.isComposite = true)
    (hname : isMetaName name = false) :
    schema.fieldType? (some t) name = t.memberType? name := by
  rw [fieldType?, Option.bind_some, fieldDefinition?_of_not_meta hname]
  cases hshape : t.shape <;>
    simp [NamedType.isComposite, NamedType.isObject, NamedType.isAbstract, NamedType.field?,
      NamedType.fields, NamedType.memberType?, hshape] at ht ⊢

/-- The type that selections are narrowed for is the type that they are made on, unless that is not
known or the other one is a scalar. -/
def NamedType.Follows (t : NamedType) (parent? : Option NamedType) : Prop :=
  parent? = none ∨ t.shape = .scalar ∨ parent? = some t ∧ t.isComposite = true

namespace NamedType.Follows

lemma composite? {name : String} {u : NamedType} (h : schema.type? name = some u) :
    u.Follows (schema.composite? name) := by
  cases hcomposite : u.isComposite with
  | false =>
      refine .inl (Option.eq_none_iff_forall_ne_some.mpr fun v hv => ?_)
      obtain ⟨hv, hcomposite'⟩ := Schema.composite?_eq_some.mp hv
      obtain rfl := Option.some.inj (h.symm.trans hv)
      simp [hcomposite] at hcomposite'
  | true => exact .inr (.inr ⟨Schema.composite?_eq_some.mpr ⟨h, hcomposite⟩, hcomposite⟩)

lemma conditionType (h : t.Follows parent?) (condition? : Option String) :
    (schema.conditionType t condition?).Follows (schema.insideInline? parent? condition?) := by
  cases condition? with
  | none => exact h
  | some condition =>
      rw [Schema.conditionType, Schema.insideInline?]
      cases hu : schema.type? condition with
      | none =>
          refine .inl ?_
          rw [Schema.composite?, hu]
          rfl
      | some u => exact composite? hu

/-- The selections inside a field that is defined follow its type. -/
lemma memberResult {name : String} {type : TypeRef} (ht : t.isComposite = true)
    (hname : isMetaName name = false) (htype : t.memberType? name = some type) :
    (schema.memberResult t name).Follows (schema.insideField? (some t) name) := by
  rw [Schema.memberResult, Schema.insideField?, Schema.fieldType?_of_composite ht hname, htype]
  dsimp only [Option.bind_some]
  rw [Schema.resolve]
  cases hu : schema.namedType? type with
  | none => exact .inr (.inl rfl)
  | some u => exact composite? hu

end NamedType.Follows

/-- What is left of a selection that a type accepts is tracked. -/
lemma Selection.tracked_of_narrow? {s s' : Selection} (h : t.Follows parent?)
    (haccepts : t.accepts s = true) (hs : s.narrow? schema t = some s') :
    s'.Tracked schema parent? := by
  have hset {u : NamedType} {parent? : Option NamedType} {ss : List Selection}
      (ih : ∀ s ∈ ss, ∀ u parent? s', u.Follows parent? → u.accepts s = true →
        s.narrow? schema u = some s' → s'.Tracked schema parent?)
      (h : u.Follows parent?) : TrackedIn schema parent? (narrowAll schema u ss) := by
    refine trackedIn_iff.mpr fun s' hs' => ?_
    obtain ⟨s, hs, haccepts, hnarrow⟩ := mem_narrowAll.mp hs'
    exact ih s hs u parent? s' h haccepts hnarrow
  induction s using Selection.induct generalizing t parent? s' with
  | leaf alias? name arguments directives =>
      cases hs
      rw [Tracked]
      trivial
  | composite alias? name arguments directives ss ih =>
      rw [narrow?] at hs
      split at hs
      · rename_i hname
        cases hs
        rw [Tracked]
        exact .inr (.inl hname)
      · rename_i hname
        rw [Bool.not_eq_true] at hname
        split at hs
        · cases hs
        · cases hs
          obtain ⟨type, htype⟩ : ∃ type, t.memberType? name = some type := by
            rw [NamedType.accepts, NamedType.defines, hname, Bool.false_or] at haccepts
            exact Option.isSome_iff_exists.mp haccepts
          rw [Tracked]
          rcases h with rfl | hscalar | ⟨rfl, hcomposite⟩
          · exact .inl rfl
          · simp [NamedType.memberType?, hscalar] at htype
          · refine .inr (.inr ⟨?_, hset (fun s hs u parent? s' => @ih s hs parent? u s')
              (.memberResult hcomposite hname htype)⟩)
            rw [Schema.fieldType?_of_composite hcomposite hname, htype]
            rfl
  | spread fragment directives =>
      cases hs
      rw [Tracked]
      trivial
  | inline condition? directives ss ih =>
      rw [narrow?] at hs
      split at hs
      · cases hs
      · cases hs
        rw [Tracked]
        exact hset (fun s hs u parent? s' => @ih s hs parent? u s') (h.conditionType condition?)

/-- **Narrowed selections are tracked** where the type that they are narrowed for is followed. -/
theorem trackedIn_narrowAll (h : t.Follows parent?) :
    TrackedIn schema parent? (narrowAll schema t ss) := by
  refine trackedIn_iff.mpr fun s' hs' => ?_
  obtain ⟨s, -, haccepts, hnarrow⟩ := mem_narrowAll.mp hs'
  exact Selection.tracked_of_narrow? h haccepts hnarrow

end RemoteNodes
