import Mathlib.Tactic
import RemoteNodes.Proofs.Schema.Conforms
import RemoteNodes.Schema.Validity
import RemoteNodes.Selection.Narrowing
/-!
What narrowing leaves of selections is in scope.

* `Schema.Names`: type conditions that name types on which selections can be made.
* `Schema.Knows`: the types that selections are narrowed for; `Schema.Knows.fieldType?`: their
  fields.
* `scopedIn_narrowAll`: **narrowed selections are in scope**.
* `narrowWarnings_ne_nil`: **selections that are not in scope cause a warning**;
  `exists_of_mem_narrowWarnings`: each warning is about an undefined field.
-/

namespace RemoteNodes

variable {schema : Schema} {t : NamedType} {name : String}

/-! ### Conditions -/

lemma mem_conditionsIn {ss : List Selection} {condition : String} :
    condition ∈ conditionsIn ss ↔ ∃ s ∈ ss, condition ∈ s.conditions := by
  induction ss with
  | nil => simp [conditionsIn]
  | cons s ss ih => simp [conditionsIn, ih]

/-- Selections can be made on all the types that conditions name. -/
def Schema.Names (schema : Schema) (conditions : List String) : Prop :=
  ∀ condition ∈ conditions, (schema.composite? condition).isSome = true

lemma Schema.Names.mono {conditions conditions' : List String} (h : schema.Names conditions)
    (hsub : conditions' ⊆ conditions) : schema.Names conditions' :=
  fun condition hcondition => h condition (hsub hcondition)

lemma Schema.names_conditionsIn_iff {ss : List Selection} :
    schema.Names (conditionsIn ss) ↔ ∀ s ∈ ss, schema.Names s.conditions := by
  simp only [Schema.Names, mem_conditionsIn]
  exact ⟨fun h s hs condition hcondition => h condition ⟨s, hs, hcondition⟩,
    fun h condition ⟨s, hs, hcondition⟩ => h s hs condition hcondition⟩

lemma Schema.Names.of_mem {ss : List Selection} {s : Selection}
    (h : schema.Names (conditionsIn ss)) (hs : s ∈ ss) : schema.Names s.conditions :=
  Schema.names_conditionsIn_iff.mp h s hs

lemma Schema.Names.of_inline {condition? : Option String} {directives : List Directive}
    {ss : List Selection}
    (h : schema.Names (Selection.inline condition? directives ss).conditions) :
    ∀ s ∈ ss, schema.Names s.conditions := by
  rw [Selection.conditions] at h
  exact Schema.names_conditionsIn_iff.mp (h.mono (List.subset_append_right _ _))

lemma conditionsIn_subset {ss ss' : List Selection}
    (h : ∀ s' ∈ ss', ∃ s ∈ ss, s'.conditions ⊆ s.conditions) :
    conditionsIn ss' ⊆ conditionsIn ss := by
  intro condition hcondition
  obtain ⟨s', hs', hcondition⟩ := mem_conditionsIn.mp hcondition
  obtain ⟨s, hs, hsub⟩ := h s' hs'
  exact mem_conditionsIn.mpr ⟨s, hs, hsub hcondition⟩

/-- Narrowing adds no conditions. -/
lemma Selection.conditions_narrow?_subset {s s' : Selection} (h : s.narrow? schema t = some s') :
    s'.conditions ⊆ s.conditions := by
  have hset {u : NamedType} {ss : List Selection}
      (ih : ∀ s ∈ ss, ∀ u s', s.narrow? schema u = some s' → s'.conditions ⊆ s.conditions) :
      conditionsIn (narrowAll schema u ss) ⊆ conditionsIn ss := by
    refine conditionsIn_subset fun s' hs' => ?_
    obtain ⟨s, hs, -, hnarrow⟩ := mem_narrowAll.mp hs'
    exact ⟨s, hs, ih s hs u s' hnarrow⟩
  induction s using Selection.induct generalizing t s' with
  | leaf alias? name arguments directives =>
      cases h
      exact List.Subset.refl _
  | composite alias? name arguments directives ss ih =>
      rw [narrow?] at h
      split at h
      · cases h
        exact List.Subset.refl _
      · split at h
        · cases h
        · cases h
          rw [conditions, conditions]
          exact hset fun s hs u s' => @ih s hs u s'
  | spread fragment directives =>
      cases h
      exact List.Subset.refl _
  | inline condition? directives ss ih =>
      rw [narrow?] at h
      split at h
      · cases h
      · cases h
        rw [conditions, conditions]
        exact List.append_subset.mpr ⟨List.subset_append_left _ _,
          List.subset_append_of_subset_right _ (hset fun s hs u s' => @ih s hs u s')⟩

/-! ### Types that selections are narrowed for -/

/-- A type that selections are narrowed for: one of the schema that can be returned, or a scalar
that stands in for a type which is not known. -/
def Schema.Knows (schema : Schema) (t : NamedType) : Prop :=
  (t ∈ schema.types ∧ t.isOutput = true) ∨ t.shape = .scalar

namespace Schema

lemma knows_of_composite? {condition : String} (h : schema.composite? condition = some t) :
    schema.Knows t := by
  obtain ⟨htype, hcomposite⟩ := composite?_eq_some.mp h
  refine .inl ⟨mem_of_type? htype, ?_⟩
  cases hshape : t.shape <;>
    simp [NamedType.isComposite, NamedType.isObject, NamedType.isAbstract, NamedType.isOutput,
      hshape] at hcomposite ⊢

namespace Knows

variable (h : schema.Knows t)
include h

lemma mem_of_ne_scalar (hshape : t.shape ≠ .scalar) : t ∈ schema.types := (h.resolve_right hshape).1

lemma memberType?_eq (name : String) : t.memberType? name = (t.field? name).map (·.type) := by
  rw [NamedType.field?, NamedType.fields]
  rcases h with ⟨-, houtput⟩ | hshape
  · cases hshape : t.shape <;>
      simp [NamedType.memberType?, NamedType.isOutput, hshape] at houtput ⊢
  · simp [NamedType.memberType?, hshape]

/-- A type with a field belongs to the schema, and selections can be made on it. -/
lemma composite?_of_field? (hschema : schema.Conforms) {f : OutputField}
    (hf : t.field? name = some f) :
    t ∈ schema.types ∧ f ∈ t.fields ∧ schema.composite? t.name = some t := by
  have hmem : f ∈ t.fields := List.mem_of_find?_eq_some hf
  have hshape : t.shape ≠ .scalar ∧ t.isComposite = true := by
    rw [NamedType.fields] at hmem
    cases hshape : t.shape <;>
      simp [NamedType.isComposite, NamedType.isObject, NamedType.isAbstract, hshape] at hmem ⊢
  have ht := h.mem_of_ne_scalar hshape.1
  exact ⟨ht, hmem, composite?_eq_some.mpr ⟨hschema.type?_of_mem ht, hshape.2⟩⟩

/-- The fields of such a type are those of the type of its name in the schema. -/
lemma fieldType? (hschema : schema.Conforms) (hname : isMetaName name = false) {type : TypeRef}
    (htype : t.memberType? name = some type) :
    schema.fieldType? (schema.composite? t.name) name = some type := by
  rw [h.memberType?_eq] at htype
  obtain ⟨f, hf, rfl⟩ := Option.map_eq_some_iff.mp htype
  rw [(h.composite?_of_field? hschema hf).2.2, Schema.fieldType?, Option.bind_some,
    fieldDefinition?_of_not_meta hname, hf]
  rfl

/-- The selections inside a field are made on such a type. -/
lemma memberResult (hschema : schema.Conforms) (name : String) :
    schema.Knows (schema.memberResult t name) := by
  rw [Schema.memberResult]
  split
  · rename_i type htype
    rw [resolve]
    cases hnamed : schema.namedType? type with
    | none => exact .inr rfl
    | some u =>
        rw [h.memberType?_eq] at htype
        obtain ⟨f, hf, rfl⟩ := Option.map_eq_some_iff.mp htype
        obtain ⟨ht, hmem, -⟩ := h.composite?_of_field? hschema hf
        exact .inl ⟨mem_of_type? hnamed, hschema.output t ht f hmem u hnamed⟩
  · exact .inr rfl

/-- The selections inside an inline fragment are made on such a type. -/
lemma conditionType {condition? : Option String} (hnames : schema.Names condition?.toList) :
    schema.Knows (schema.conditionType t condition?) := by
  cases condition? with
  | none => exact h
  | some condition =>
      obtain ⟨u, hu⟩ := Option.isSome_iff_exists.mp (hnames condition (List.mem_singleton_self _))
      rw [Schema.conditionType, (composite?_eq_some.mp hu).1]
      exact knows_of_composite? hu

end Knows

lemma composite?_conditionType {condition? : Option String}
    (hnames : schema.Names condition?.toList) :
    schema.composite? (schema.conditionType t condition?).name
      = schema.insideInline? (schema.composite? t.name) condition? := by
  cases condition? with
  | none => rfl
  | some condition =>
      obtain ⟨u, hu⟩ := Option.isSome_iff_exists.mp (hnames condition (List.mem_singleton_self _))
      have htype := (composite?_eq_some.mp hu).1
      rw [Schema.conditionType, htype, Option.getD_some, name_of_type? htype, insideInline?]

lemma name_resolve (type : TypeRef) : (schema.resolve type).name = type.namedType := by
  rw [resolve]
  cases hnamed : schema.namedType? type with
  | none => rfl
  | some u => exact name_of_type? hnamed

/-- The type of the selections inside a field, by its name. -/
lemma Knows.composite?_memberResult (h : schema.Knows t) (hschema : schema.Conforms)
    (hname : isMetaName name = false) (hdefined : (t.memberType? name).isSome = true) :
    schema.composite? (schema.memberResult t name).name
      = schema.insideField? (schema.composite? t.name) name := by
  obtain ⟨type, htype⟩ := Option.isSome_iff_exists.mp hdefined
  rw [Schema.memberResult, htype, insideField?, h.fieldType? hschema hname htype, Option.bind_some,
    name_resolve]

end Schema

lemma NamedType.memberType?_of_defines (h : t.defines name = true)
    (hname : isMetaName name = false) : (t.memberType? name).isSome = true := by
  rwa [NamedType.defines, hname, Bool.false_or] at h

/-- A field that a type defines is defined where it is selected. -/
lemma Schema.Knows.isSome_fieldType? (h : schema.Knows t) (hschema : schema.Conforms)
    (hname : isMetaName name = false) (hdefined : (t.memberType? name).isSome = true) :
    (schema.fieldType? (schema.composite? t.name) name).isSome = true := by
  obtain ⟨type, htype⟩ := Option.isSome_iff_exists.mp hdefined
  rw [h.fieldType? hschema hname htype]
  rfl

/-! ### Warnings -/

/-- The warning about a selection itself, if it is an undefined field. -/
def NamedType.warnings (t : NamedType) : Selection → List Warning
  | .field _ name .. => if t.defines name then [] else [t.undefinedField name]
  | _ => []

lemma narrowWarnings_cons {s : Selection} {ss : List Selection} :
    narrowWarnings schema t (s :: ss) = t.warnings s
      ++ (if t.accepts s then s.narrowWarnings schema t else []) ++ narrowWarnings schema t ss := by
  cases s with
  | field alias? name arguments directives selections? => rw [narrowWarnings, NamedType.warnings]
  | spread fragment directives => rfl
  | inline condition? directives ss' => rfl

lemma NamedType.warnings_eq_nil_iff {s : Selection} : t.warnings s = [] ↔ t.accepts s = true := by
  cases s with
  | field alias? name arguments directives selections? => simp [warnings, accepts]
  | spread fragment directives => simp [warnings, accepts]
  | inline condition? directives ss => simp [warnings, accepts]

/-- Narrowing warns of nothing exactly if the type accepts all selections and nothing inside them
causes a warning. -/
lemma narrowWarnings_eq_nil_iff {ss : List Selection} : narrowWarnings schema t ss = []
    ↔ ∀ s ∈ ss, t.accepts s = true ∧ s.narrowWarnings schema t = [] := by
  induction ss with
  | nil => simp [narrowWarnings]
  | cons s ss ih =>
      rw [narrowWarnings_cons, List.append_eq_nil_iff, List.append_eq_nil_iff, ih,
        List.forall_mem_cons, NamedType.warnings_eq_nil_iff]
      refine and_congr_left fun _ => and_congr_right fun haccepts => ?_
      rw [if_pos haccepts]

/-- A warning that narrowing gives is about an undefined field. -/
lemma exists_of_mem_narrowWarnings {ss : List Selection} {warning : Warning}
    (h : warning ∈ narrowWarnings schema t ss) :
    ∃ u name, warning = NamedType.undefinedField u name := by
  have hset {u : NamedType} {ss : List Selection}
      (ih : ∀ s ∈ ss, ∀ u, warning ∈ s.narrowWarnings schema u →
        ∃ u name, warning = NamedType.undefinedField u name)
      (h : warning ∈ narrowWarnings schema u ss) :
      ∃ u name, warning = NamedType.undefinedField u name := by
    induction ss with
    | nil => cases h
    | cons s ss ihss =>
        obtain ⟨hfirst, hrest⟩ := List.forall_mem_cons.mp ih
        rw [narrowWarnings_cons, List.mem_append, List.mem_append] at h
        rcases h with (h | h) | h
        · cases s with
          | field alias? name arguments directives selections? =>
              rw [NamedType.warnings] at h
              split at h
              · cases h
              · exact ⟨u, name, List.mem_singleton.mp h⟩
          | spread fragment directives => cases h
          | inline condition? directives ss => cases h
        · split at h
          · exact hfirst u h
          · cases h
        · exact ihss hrest h
  have hone (s : Selection) : ∀ u, warning ∈ s.narrowWarnings schema u →
      ∃ u name, warning = NamedType.undefinedField u name := by
    induction s using Selection.induct with
    | leaf alias? name arguments directives =>
        intro u h
        cases h
    | composite alias? name arguments directives ss ih =>
        intro u h
        rw [Selection.narrowWarnings] at h
        split at h
        · cases h
        · exact hset ih h
    | spread fragment directives =>
        intro u h
        cases h
    | inline condition? directives ss ih =>
        intro u h
        rw [Selection.narrowWarnings] at h
        exact hset ih h
  exact hset (fun s _ => hone s) h

/-! ### Narrowed selections -/

section Narrowed

variable (hschema : schema.Conforms)
include hschema

/-- What is left of a selection that a type accepts is in scope on that type. -/
lemma Selection.scoped_of_narrow? {s s' : Selection} (ht : schema.Knows t)
    (hnames : schema.Names s.conditions) (haccepts : t.accepts s = true)
    (h : s.narrow? schema t = some s') : s'.Scoped schema (schema.composite? t.name) := by
  have hset {u : NamedType} {ss : List Selection} (hu : schema.Knows u)
      (hnames : schema.Names (conditionsIn ss))
      (ih : ∀ s ∈ ss, ∀ u s', schema.Knows u → schema.Names s.conditions → u.accepts s = true →
        s.narrow? schema u = some s' → s'.Scoped schema (schema.composite? u.name)) :
      ScopedIn schema (schema.composite? u.name) (narrowAll schema u ss) := by
    refine scopedIn_iff.mpr fun s' hs' => ?_
    obtain ⟨s, hs, haccepts, hnarrow⟩ := mem_narrowAll.mp hs'
    exact ih s hs u s' hu (hnames.of_mem hs) haccepts hnarrow
  induction s using Selection.induct generalizing t s' with
  | leaf alias? name arguments directives =>
      cases h
      refine scoped_leaf.mpr (Bool.eq_false_or_eq_true (isMetaName name) |>.imp_right ?_)
      intro hname
      exact ht.isSome_fieldType? hschema hname (NamedType.memberType?_of_defines haccepts hname)
  | composite alias? name arguments directives ss ih =>
      rw [narrow?] at h
      split at h
      · rename_i hname
        cases h
        exact scoped_composite.mpr (.inl hname)
      · rename_i hname
        rw [Bool.not_eq_true] at hname
        split at h
        · cases h
        · cases h
          have hdefined := NamedType.memberType?_of_defines haccepts hname
          refine scoped_composite.mpr (.inr ⟨ht.isSome_fieldType? hschema hname hdefined, ?_⟩)
          rw [← ht.composite?_memberResult hschema hname hdefined]
          rw [conditions] at hnames
          exact hset (ht.memberResult hschema name) hnames fun s hs u s' => @ih s hs u s'
  | spread fragment directives =>
      cases h
      exact scoped_spread
  | inline condition? directives ss ih =>
      rw [narrow?] at h
      rw [conditions] at hnames
      have hcondition := hnames.mono (List.subset_append_left _ _)
      split at h
      · cases h
      · cases h
        rw [scoped_inline, ← Schema.composite?_conditionType hcondition]
        exact hset (ht.conditionType hcondition) (hnames.mono (List.subset_append_right _ _))
          fun s hs u s' => @ih s hs u s'

/-- Narrowed selections are in scope on the type that they are narrowed for. -/
theorem scopedIn_narrowAll {ss : List Selection} (ht : schema.Knows t)
    (hnames : schema.Names (conditionsIn ss)) :
    ScopedIn schema (schema.composite? t.name) (narrowAll schema t ss) := by
  refine scopedIn_iff.mpr fun s' hs' => ?_
  obtain ⟨s, hs, haccepts, hnarrow⟩ := mem_narrowAll.mp hs'
  exact Selection.scoped_of_narrow? hschema ht (hnames.of_mem hs) haccepts hnarrow

/-- A selection that a type accepts and that causes no warning about an undefined field is in scope
on that type. -/
private lemma Selection.scoped_of_narrowWarnings {s : Selection} (ht : schema.Knows t)
    (hnames : schema.Names s.conditions) (haccepts : t.accepts s = true)
    (h : s.narrowWarnings schema t = []) : s.Scoped schema (schema.composite? t.name) := by
  have hset {u : NamedType} {ss : List Selection} (hu : schema.Knows u)
      (hnames : schema.Names (conditionsIn ss))
      (ih : ∀ s ∈ ss, ∀ u, schema.Knows u → schema.Names s.conditions → u.accepts s = true →
        s.narrowWarnings schema u = [] → s.Scoped schema (schema.composite? u.name))
      (hnone : RemoteNodes.narrowWarnings schema u ss = []) :
      ScopedIn schema (schema.composite? u.name) ss := by
    refine scopedIn_iff.mpr fun s hs => ?_
    obtain ⟨haccepts, hinner⟩ := narrowWarnings_eq_nil_iff.mp hnone s hs
    exact ih s hs u hu (hnames.of_mem hs) haccepts hinner
  induction s using Selection.induct generalizing t with
  | leaf alias? name arguments directives =>
      refine scoped_leaf.mpr (Bool.eq_false_or_eq_true (isMetaName name) |>.imp_right ?_)
      intro hname
      exact ht.isSome_fieldType? hschema hname (NamedType.memberType?_of_defines haccepts hname)
  | composite alias? name arguments directives ss ih =>
      refine scoped_composite.mpr (Bool.eq_false_or_eq_true (isMetaName name) |>.imp_right ?_)
      intro hname
      have hdefined := NamedType.memberType?_of_defines haccepts hname
      rw [Selection.narrowWarnings, if_neg (by simp [hname])] at h
      rw [conditions] at hnames
      refine ⟨ht.isSome_fieldType? hschema hname hdefined, ?_⟩
      rw [← ht.composite?_memberResult hschema hname hdefined]
      exact hset (ht.memberResult hschema name) hnames (fun s hs u => @ih s hs u) h
  | spread fragment directives => exact scoped_spread
  | inline condition? directives ss ih =>
      rw [Selection.narrowWarnings] at h
      rw [conditions] at hnames
      have hcondition := hnames.mono (List.subset_append_left _ _)
      rw [scoped_inline, ← Schema.composite?_conditionType hcondition]
      exact hset (ht.conditionType hcondition) (hnames.mono (List.subset_append_right _ _))
        (fun s hs u => @ih s hs u) h

/-- Selections that are not in scope cause a warning. -/
theorem narrowWarnings_ne_nil {ss : List Selection} (ht : schema.Knows t)
    (hnames : schema.Names (conditionsIn ss))
    (h : ¬ ScopedIn schema (schema.composite? t.name) ss) : narrowWarnings schema t ss ≠ [] := by
  refine mt (fun hnone => scopedIn_iff.mpr fun s hs => ?_) h
  obtain ⟨haccepts, hinner⟩ := narrowWarnings_eq_nil_iff.mp hnone s hs
  exact Selection.scoped_of_narrowWarnings hschema ht (hnames.of_mem hs) haccepts hinner

end Narrowed

end RemoteNodes
