import RemoteNodes.Proofs.Fragment.Opening
import RemoteNodes.Proofs.Node.Merging
/-!
When a query can ask for what default fragments select. A field whose type selects nothing, because
required arguments are missing or there are no possible types, leaves a hole in them.

* `Schema.Distinct`: names in a schema are unambiguous.
* `NamedType.Selects`, `NamedType.Mentions`: what the fragment of a type selects, and the types that
  it goes on to; `mem_typeFragment_iff`, `setUsable_typeFragment_iff`.
* `ComesTo`, `NamedType.Reaches`: the names that the default fragment of a type reaches;
  `Inlining.opens_iff_reaches`: they are those of the fragments that inlining opens.
* `defaultFragments_usable_iff`: **a default fragment can be asked for exactly if something is
  selected under each name that it reaches**; `defaultFragments_not_usable`: one that cannot.
-/

namespace RemoteNodes

open Relation

/-! ### Type fragments -/

/-- Names in a schema are unambiguous: those of types, of the fields of a type and of the arguments
of a field; and names of fields do not belong to introspection. -/
structure Schema.Distinct (schema : Schema) : Prop where
  types : (schema.types.map (·.name)).Nodup
  fields : ∀ t ∈ schema.types, (t.fields.map (·.name)).Nodup
  arguments : ∀ t ∈ schema.types, ∀ f ∈ t.fields, (f.arguments.map (·.name)).Nodup
  introspection : ∀ t ∈ schema.types, ∀ f ∈ t.fields, isMetaName f.name = false

/-- Something of a type can be selected: an abstract type has possible types, another one a field
whose required arguments are supplied. -/
def NamedType.Selects (schema : Schema) (resolvers : List ArgumentResolver) (t : NamedType) :
    Prop :=
  if t.isAbstract then schema.possibleTypes t ≠ []
  else ∃ field ∈ t.fields, Supplied schema resolvers t.name field

/-- Selecting all of a type comes to another type: a possible type, or the composite type of a field
whose required arguments are supplied. -/
def NamedType.Mentions (schema : Schema) (resolvers : List ArgumentResolver) (t u : NamedType) :
    Prop :=
  if t.isAbstract then u ∈ schema.possibleTypes t
  else ∃ field ∈ t.fields, Supplied schema resolvers t.name field
    ∧ schema.composite? field.type.namedType = some u

section TypeFragments

variable {schema : Schema} {resolvers : List ArgumentResolver} {type name : String}
  {field : OutputField} {t : NamedType} {f : Fragment}

/-- The first input gives an argument if it has a value and a literal for it, and else none. -/
lemma argumentsFrom_cons {values : Keyed Json} {input : InputField} {rest : List InputField}
    {arguments : List Argument} (h : argumentsFrom schema values (input :: rest) = .ok arguments) :
    argumentsFrom schema values rest = .ok arguments
      ∨ ∃ value literal given, Keyed.get? values input.name = some value
        ∧ Literal.ofJson schema input.type value = .ok (some literal)
        ∧ argumentsFrom schema values rest = .ok given
        ∧ arguments = ⟨input.name, literal⟩ :: given := by
  rw [argumentsFrom] at h
  split at h
  · exact .inl h
  · rename_i value hvalue
    split at h
    · cases h
    · exact .inl h
    · rename_i literal hliteral
      cases hgiven : argumentsFrom schema values rest with
      | error fault => rw [hgiven] at h; cases h
      | ok given =>
          rw [hgiven] at h
          cases h
          exact .inr ⟨value, literal, given, hvalue, hliteral, rfl, rfl⟩

/-- Each argument that is given belongs to an input with a value and a literal for it. -/
lemma exists_of_mem_argumentsFrom {values : Keyed Json} {inputs : List InputField}
    {arguments : List Argument} (h : argumentsFrom schema values inputs = .ok arguments)
    {a : Argument} (ha : a ∈ arguments) :
    ∃ input ∈ inputs, input.name = a.name ∧ ∃ value literal,
      Keyed.get? values input.name = some value
        ∧ Literal.ofJson schema input.type value = .ok (some literal) := by
  induction inputs generalizing arguments with
  | nil =>
      cases h
      cases ha
  | cons first rest ih =>
      rcases argumentsFrom_cons h with hrest | ⟨value, literal, given, hvalue, hliteral, hrest, rfl⟩
      · obtain ⟨input, hinput, hgiven⟩ := ih hrest ha
        exact ⟨input, List.mem_cons_of_mem _ hinput, hgiven⟩
      · rcases List.mem_cons.mp ha with rfl | ha
        · exact ⟨first, List.mem_cons_self, rfl, value, literal, hvalue, hliteral⟩
        · obtain ⟨input, hinput, hgiven⟩ := ih hrest ha
          exact ⟨input, List.mem_cons_of_mem _ hinput, hgiven⟩

/-- A field that is selected has all of its required arguments supplied. -/
lemma supplied_of_fieldSelection? (hnodup : (field.arguments.map (·.name)).Nodup) {s : Selection}
    (h : fieldSelection? schema resolvers type field = .ok (some s)) :
    Supplied schema resolvers type field := by
  obtain ⟨arguments, harguments, h⟩ := bind_eq_ok.mp h
  intro input hinput hrequired
  split at h
  · rename_i hall
    have hgiven := List.all_eq_true.mp hall input hinput
    rw [hrequired, Bool.not_true, Bool.false_or] at hgiven
    obtain ⟨a, ha, hname⟩ := List.any_eq_true.mp hgiven
    obtain ⟨input', hinput', hname', value, literal, hvalue, hliteral⟩ :=
      exists_of_mem_argumentsFrom harguments ha
    have hname : input'.name = input.name := hname'.trans (by simpa using hname)
    obtain rfl := List.inj_on_of_nodup_map hnodup hinput' hinput hname
    exact ⟨value, literal, hvalue, hliteral⟩
  · cases h

/-- The selections inside a field are made on the composite type that it has. -/
lemma Schema.Distinct.insideField?_eq (hschema : schema.Distinct) (ht : t ∈ schema.types)
    (hfield : field ∈ t.fields) :
    schema.insideField? (some t) field.name = schema.composite? field.type.namedType := by
  have hfind : t.field? field.name = some field :=
    Schema.find?_of_nodup (hschema.fields t ht) hfield
  rw [insideField?, fieldType?, Option.bind_some,
    fieldDefinition?_of_not_meta (hschema.introspection t ht field hfield), hfind, Option.map_some,
    Option.bind_some]

/-- **What the fragment of a type that is not abstract selects**: the fields whose required
arguments are supplied. -/
lemma mem_typeFragment_iff (hschema : schema.Distinct) (ht : t ∈ schema.types)
    (h : typeFragment schema resolvers t = .ok f) (habstract : t.isAbstract = false)
    {s : Selection} :
    s ∈ f.selections ↔ ∃ field ∈ t.fields, Supplied schema resolvers t.name field
      ∧ ∃ arguments, resolveArguments schema resolvers t.name field = .ok arguments
        ∧ s = .field none field.name arguments []
          ((schema.composite? field.type.namedType).map fun t => [.spread t.name []]) := by
  constructor
  · intro hs
    obtain ⟨selections?, hmap, rfl⟩ := typeFragment_of_not_isAbstract h habstract
    obtain ⟨s?, hs?, hs⟩ := List.mem_filterMap.mp hs
    obtain rfl : s? = some s := hs
    obtain ⟨field, hfield, hmade⟩ := (mem_of_mapM hmap).2 _ hs?
    have hsupplied := supplied_of_fieldSelection? (hschema.arguments t ht field hfield) hmade
    obtain ⟨arguments, harguments, hs⟩ := exists_of_fieldSelection? hmade hsupplied
    exact ⟨field, hfield, hsupplied, arguments, harguments, Option.some.inj hs⟩
  · rintro ⟨field, hfield, hsupplied, arguments, harguments, rfl⟩
    obtain ⟨arguments', harguments', hmem⟩ :=
      exists_field_of_typeFragment h habstract hfield hsupplied
    obtain rfl := Except.ok.inj (harguments.symm.trans harguments')
    exact hmem

/-- The fragment of a type spreads those of the types that it mentions. -/
lemma mem_spreadNamesIn_typeFragment_iff (hschema : schema.Distinct) (ht : t ∈ schema.types)
    (h : typeFragment schema resolvers t = .ok f) :
    name ∈ spreadNamesIn f.selections ↔ ∃ u, t.Mentions schema resolvers u ∧ u.name = name := by
  rw [mem_spreadNamesIn]
  cases habstract : t.isAbstract with
  | true =>
      rw [typeFragment_of_isAbstract habstract] at h
      cases h
      simp [NamedType.Mentions, habstract, Selection.spreadNames, eq_comm]
  | false =>
      simp only [NamedType.Mentions, habstract, Bool.false_eq_true, if_false]
      constructor
      · rintro ⟨s, hs, hname⟩
        obtain ⟨field, hfield, hsupplied, arguments, -, rfl⟩ :=
          (mem_typeFragment_iff hschema ht h habstract).mp hs
        cases hcomposite : schema.composite? field.type.namedType with
        | none =>
            rw [hcomposite, Option.map_none, Selection.spreadNames] at hname
            cases hname
        | some u =>
            rw [hcomposite, Option.map_some, Selection.spreadNames] at hname
            refine ⟨u, ⟨field, hfield, hsupplied, hcomposite⟩, ?_⟩
            simpa [Selection.spreadNames, spreadNamesIn, eq_comm] using hname
      · rintro ⟨u, ⟨field, hfield, hsupplied, hcomposite⟩, rfl⟩
        obtain ⟨arguments, -, hmem⟩ := exists_field_of_typeFragment h habstract hfield hsupplied
        refine ⟨_, hmem, ?_⟩
        rw [hcomposite, Option.map_some, Selection.spreadNames]
        simp [Selection.spreadNames, spreadNamesIn]

/-- The fragment of a type can be asked for exactly if something of the type can be selected. -/
lemma setUsable_typeFragment_iff (hschema : schema.Distinct) (ht : t ∈ schema.types)
    (h : typeFragment schema resolvers t = .ok f) :
    SetUsable schema (some t) f.selections ↔ t.Selects schema resolvers := by
  rw [SetUsable, usableIn_iff]
  cases habstract : t.isAbstract with
  | true =>
      rw [typeFragment_of_isAbstract habstract] at h
      cases h
      simp [NamedType.Selects, habstract, Selection.usable_spread]
  | false =>
      simp only [NamedType.Selects, habstract, Bool.false_eq_true, if_false]
      constructor
      · rintro ⟨hne, -⟩
        obtain ⟨s, hs⟩ := List.exists_mem_of_ne_nil _ hne
        obtain ⟨field, hfield, hsupplied, -⟩ := (mem_typeFragment_iff hschema ht h habstract).mp hs
        exact ⟨field, hfield, hsupplied⟩
      · rintro ⟨field, hfield, hsupplied⟩
        obtain ⟨arguments, -, hmem⟩ := exists_field_of_typeFragment h habstract hfield hsupplied
        refine ⟨List.ne_nil_of_mem hmem, fun s hs => ?_⟩
        obtain ⟨field', hfield', -, arguments, -, rfl⟩ :=
          (mem_typeFragment_iff hschema ht h habstract).mp hs
        have hinside := hschema.insideField?_eq ht hfield'
        cases hcomposite : schema.composite? field'.type.namedType with
        | none => exact Selection.usable_leaf.mpr (.inr (hinside.trans hcomposite))
        | some u =>
            have hspread : UsableIn schema (schema.insideField? (some t) field'.name)
                [.spread u.name []] := ⟨Selection.usable_spread, trivial⟩
            exact Selection.usable_composite.mpr ⟨List.cons_ne_nil _ _, hspread⟩

/-- The fragment of a type has no inline fragments. -/
lemma conditionedIn_typeFragment (h : typeFragment schema resolvers t = .ok f) :
    ConditionedIn f.selections := by
  refine conditionedIn_iff.mpr fun s hs => ?_
  cases habstract : t.isAbstract with
  | true =>
      rw [typeFragment_of_isAbstract habstract] at h
      cases h
      obtain ⟨p, -, rfl⟩ := List.mem_map.mp hs
      exact Selection.conditioned_spread
  | false =>
      obtain ⟨field, -, arguments, -, rfl⟩ := exists_of_mem_typeFragment h habstract hs
      cases schema.composite? field.type.namedType with
      | none => exact Selection.conditioned_leaf
      | some u => exact Selection.conditioned_composite.mpr ⟨Selection.conditioned_spread, trivial⟩

end TypeFragments

/-! ### References -/

/-- Merged fields have no inline fragments. -/
lemma Selection.Bare.conditioned {s : Selection} (h : s.Bare) : s.Conditioned := by
  induction h with
  | leaf name => exact conditioned_leaf
  | composite _ ih => exact conditioned_composite.mpr (conditionedIn_iff.mpr ih)

/-- References have no inline fragments but those of ID fragments. -/
lemma conditionedIn_of_get? {schema : Schema} {declarations : List NodeDeclaration}
    {references : References} {name : String} {f : Fragment}
    (h : referenceFragments schema declarations = .ok references)
    (hid : ∀ type queries idFragment, Declares declarations type queries idFragment →
      ConditionedIn idFragment.selections)
    (hget : Keyed.get? references name = some f) : ConditionedIn f.selections := by
  obtain ⟨entries, hentries, h⟩ := bind_eq_ok.mp h
  cases h
  rcases Keyed.mem_of_get?_overlay hget with hget | hget
  · obtain ⟨name', -, hf⟩ := List.mem_filterMap.mp hget
    obtain ⟨f', hf', heq⟩ := Option.map_eq_some_iff.mp hf
    cases heq
    obtain ⟨-, fragments, -, -, -, hselections⟩ := exists_of_interfaceReference? hf'
    rw [hselections]
    exact conditionedIn_iff.mpr fun s hs => (bare_of_mem_mergeAll hs).conditioned
  · obtain ⟨queries, idFragment, hdeclares, rfl, -⟩ := declares_of_get? hentries hget
    refine conditionedIn_iff.mpr fun s hs => ?_
    rcases mem_reference hs with rfl | hs
    · exact Selection.conditioned_leaf
    · exact conditionedIn_iff.mp (hid _ _ _ hdeclares) s hs

/-! ### What default fragments come to -/

section Reaching

variable (schema : Schema) (references : References) (resolvers : List ArgumentResolver)

/-- In default fragments what stands for a name comes to what stands for another one: its reference
spreads that name or, without a reference, the type of the name mentions the type of the other. -/
def ComesTo (name name' : String) : Prop :=
  match Keyed.get? references name with
  | some f => name' ∈ spreadNamesIn f.selections
  | none => ∃ t u, schema.composite? name = some t ∧ t.Mentions schema resolvers u ∧ u.name = name'

/-- The default fragment of a type reaches what stands for a name. -/
def NamedType.Reaches (t : NamedType) (name : String) : Prop :=
  ∃ u, t.Mentions schema resolvers u
    ∧ ReflTransGen (ComesTo schema references resolvers) u.name name

/-- What stands for a name in default fragments selects something: its reference, with all the sets
in it, or something of its type. -/
def SelectsUnder (name : String) : Prop :=
  match Keyed.get? references name with
  | some f => SetUsable schema (schema.composite? name) f.selections
  | none => ∃ t, schema.composite? name = some t ∧ t.Selects schema resolvers

end Reaching

section Default

variable {schema : Schema} {resolvers : List ArgumentResolver} {x : Inlining} {t : NamedType}
  {name name' : String} {f : Fragment} {ss : List Selection}

/-- What stands for a name is its reference or, without one, the fragment of its type. -/
lemma Inlining.of_find? (hschema : schema.Distinct)
    (hx : typeFragments schema resolvers = .ok x.fragments) (hf : x.find? name = some f) :
    Keyed.get? x.references name = some f ∨ Keyed.get? x.references name = none
      ∧ ∃ t, schema.composite? name = some t ∧ typeFragment schema resolvers t = .ok f := by
  rw [find?] at hf
  cases hreference : Keyed.get? x.references name with
  | some g =>
      rw [hreference] at hf
      exact .inl hf
  | none =>
      simp only [hreference] at hf
      refine .inr ⟨rfl, ?_⟩
      obtain ⟨made, hmade, h⟩ := bind_eq_ok.mp hx
      obtain ⟨u, hu, htype⟩ := exists_type_of_get? (mapM_eq_ok.mp hmade)
        (Except.ok.inj h ▸ hf)
      obtain ⟨hmem, hcomposite⟩ := List.mem_filter.mp (List.mem_of_find?_eq_some hu)
      have hcomposite := (Bool.and_eq_true_iff.mp hcomposite).2
      have hname : u.name = name := by simpa using List.find?_some hu
      have hfind := Schema.find?_of_nodup hschema.types hmem
      rw [hname] at hfind
      exact ⟨u, Schema.composite?_eq_some.mpr ⟨hfind, hcomposite⟩, htype⟩

/-- What a fragment that is found spreads is what its name comes to. -/
lemma Inlining.mem_spreadNamesIn_iff_comesTo (hschema : schema.Distinct)
    (hx : typeFragments schema resolvers = .ok x.fragments) (hf : x.find? name = some f) :
    name' ∈ spreadNamesIn f.selections ↔ ComesTo schema x.references resolvers name name' := by
  rw [ComesTo]
  rcases of_find? hschema hx hf with hget | ⟨hget, t, ht, htype⟩
  · rw [hget]
  · have hmem := Schema.mem_of_type? (Schema.composite?_eq_some.mp ht).1
    rw [hget, mem_spreadNamesIn_typeFragment_iff hschema hmem htype]
    simp [ht]

/-- A fragment that is found can be asked for exactly if its name selects something. -/
lemma Inlining.usableName_iff (hschema : schema.Distinct)
    (hx : typeFragments schema resolvers = .ok x.fragments) (hf : x.find? name = some f) :
    x.UsableName schema name ↔ SelectsUnder schema x.references resolvers name := by
  simp only [UsableName, hf, Option.some.injEq, forall_eq', SelectsUnder]
  rcases of_find? hschema hx hf with hget | ⟨hget, t, ht, htype⟩
  · rw [hget]
  · have hmem := Schema.mem_of_type? (Schema.composite?_eq_some.mp ht).1
    rw [hget, ht, setUsable_typeFragment_iff hschema hmem htype]
    simp

/-- Inlining of the fragment of a type opens the fragments that the default fragment reaches. -/
lemma Inlining.opens_iff_reaches (hschema : schema.Distinct)
    (hx : typeFragments schema resolvers = .ok x.fragments) (ht : t ∈ schema.types)
    (hf : typeFragment schema resolvers t = .ok f) (h : x.inlineAll [] f.selections = .ok ss) :
    x.Opens [] (spreadNamesIn f.selections) name
      ↔ t.Reaches schema x.references resolvers name := by
  have hmentions {first : String} : first ∈ spreadNamesIn f.selections ↔ _ :=
    mem_spreadNamesIn_typeFragment_iff hschema ht hf
  constructor
  · rintro ⟨first, hfirst, -, hchain⟩
    obtain ⟨u, hu, rfl⟩ := hmentions.mp hfirst
    refine ⟨u, hu, ReflTransGen.mono ?_ _ _ hchain⟩
    rintro a b ⟨-, g, hg, hspread⟩
    exact (mem_spreadNamesIn_iff_comesTo hschema hx hg).mp hspread
  · rintro ⟨u, hu, hchain⟩
    have hfirst := hmentions.mpr ⟨u, hu, rfl⟩
    refine ⟨u.name, hfirst, List.not_mem_nil, ?_⟩
    induction hchain with
    | refl => exact .refl
    | tail _ hnext ih =>
        -- inlining has succeeded, so it has found what stands for the name before
        obtain ⟨g, hg⟩ := exists_find?_of_opens h ⟨_, hfirst, List.not_mem_nil, ih⟩
        exact ih.tail ⟨List.not_mem_nil, g, hg,
          (mem_spreadNamesIn_iff_comesTo hschema hx hg).mpr hnext⟩

/-- All that inlining opens can be asked for exactly if all names that are reached select
something. -/
lemma Inlining.forall_usableName_iff (hschema : schema.Distinct)
    (hx : typeFragments schema resolvers = .ok x.fragments) (ht : t ∈ schema.types)
    (hf : typeFragment schema resolvers t = .ok f) (h : x.inlineAll [] f.selections = .ok ss) :
    (∀ name, x.Opens [] (spreadNamesIn f.selections) name → x.UsableName schema name)
      ↔ ∀ name, t.Reaches schema x.references resolvers name →
        SelectsUnder schema x.references resolvers name := by
  refine forall_congr' fun name => ?_
  have hreaches : x.Opens [] _ name ↔ _ := opens_iff_reaches hschema hx ht hf h
  rw [hreaches]
  refine forall_congr' fun hname => ?_
  obtain ⟨g, hg⟩ := exists_find?_of_opens h (hreaches.mpr hname)
  exact usableName_iff hschema hx hg

end Default

/-- **A default fragment can be asked for exactly if** something of its type can be selected, and
something under every name that it reaches: of each type on the way, until a reference or a cycle
ends it, and in each reference. -/
theorem defaultFragments_usable_iff {schema : Schema} {declarations : List NodeDeclaration}
    {references : References} {aliases : Aliases} {resolvers : List ArgumentResolver}
    {fragments : Keyed Fragment} (hschema : schema.Distinct)
    (hreferences : referenceFragments schema declarations = .ok references)
    (hid : ∀ type queries idFragment, Declares declarations type queries idFragment →
      ConditionedIn idFragment.selections)
    (h : defaultFragments schema declarations aliases resolvers = .ok fragments) :
    ∀ d ∈ declarations, ∃ t f, schema.type? d.type = some t
      ∧ Keyed.get? fragments d.type = some f
      ∧ (f.Usable schema ↔ t.Selects schema resolvers
        ∧ ∀ name, t.Reaches schema references resolvers name →
          SelectsUnder schema references resolvers name) := by
  obtain ⟨x, hx, hreferences', -, hdefault⟩ := exists_of_defaultFragments h
  obtain rfl := Except.ok.inj (hreferences.symm.trans hreferences')
  intro d hd
  obtain ⟨t, g, inlined, ht, hobject, hg, hinlined, hget⟩ := hdefault d hd
  refine ⟨t, _, ht, hget, ?_⟩
  rw [Fragment.inlined] at hinlined
  cases hss : x.inlineAll [] g.selections with
  | error fault => rw [hss] at hinlined; cases hinlined
  | ok ss =>
      rw [hss] at hinlined
      cases hinlined
      have hmem := Schema.mem_of_type? ht
      have hcomposite : schema.composite? g.condition = some t := by
        rw [(typeFragment_name hg).2, Schema.name_of_type? ht]
        exact Schema.composite?_eq_some.mpr ⟨ht, Schema.isComposite_of_isObject hobject⟩
      -- inlining puts in references and type fragments
      have hfound : ∀ name f, x.find? name = some f → ConditionedIn f.selections := by
        intro name f hf
        rcases Inlining.of_find? hschema hx hf with hget | ⟨-, u, -, htype⟩
        · exact conditionedIn_of_get? hreferences hid hget
        · exact conditionedIn_typeFragment htype
      rw [Fragment.usable_unwrapped_rewrite
        (Inlining.conditionedIn_inlineAll hfound hss (conditionedIn_typeFragment hg))]
      calc SetUsable schema (schema.composite? g.condition) ss
          ↔ SetUsable schema (some t) g.selections
            ∧ ∀ name, x.Opens [] (spreadNamesIn g.selections) name → x.UsableName schema name := by
            rw [hcomposite, SetUsable, SetUsable, Inlining.ne_nil_iff_of_inlineAll hss,
              Inlining.usableIn_inlineAll_iff hss, and_assoc]
        _ ↔ t.Selects schema resolvers
            ∧ ∀ name, t.Reaches schema x.references resolvers name →
              SelectsUnder schema x.references resolvers name :=
            and_congr (setUsable_typeFragment_iff hschema hmem hg)
              (Inlining.forall_usableName_iff hschema hx hmem hg hss)

/-! ### A type that needs an argument -/

lemma distinct_petSchema : petSchema.Distinct where
  types := by decide
  fields := by decide
  arguments := by decide
  introspection := by decide +kernel

lemma usable_petFragment : petFragment.Usable petSchema := by
  have hid : petSchema.insideField? (petSchema.composite? "Foo") "id" = none := rfl
  have hpets : petSchema.insideField? (petSchema.composite? "Foo") "pets" = some petType := rfl
  have hdog : petSchema.insideInline? (some petType) (some "Dog") = some dogType := rfl
  have hfoo : petSchema.insideInline? (some petType) (some "Foo") = some ownerType := rfl
  have hname : petSchema.insideField? (some dogType) "name" = none := rfl
  have hid' : petSchema.insideField? (some ownerType) "id" = none := rfl
  simp [Fragment.Usable, SetUsable, petFragment, UsableIn, Selection.Usable, Selection.plain, hid,
    hpets, hdog, hfoo, hname, hid']

/-- All that the default fragment of a type with pets comes to selects something. -/
theorem defaultFragments_usable_iff_pet : petFragment.Usable petSchema
    ∧ ∀ name, ownerType.Reaches petSchema fooReferences [] name →
      SelectsUnder petSchema fooReferences [] name := by
  have hid : ∀ type queries idFragment, Declares [fooDeclaration] type queries idFragment →
      ConditionedIn idFragment.selections := by
    intro type queries idFragment hdeclares
    rw [(declares_foo hdeclares).2]
    exact ⟨Selection.conditioned_leaf, trivial⟩
  obtain ⟨t, f, ht, hf, hiff⟩ := defaultFragments_usable_iff distinct_petSchema
    referenceFragments_pet hid defaultFragments_pet fooDeclaration List.mem_cons_self
  obtain rfl := Option.some.inj ht
  obtain rfl := Option.some.inj hf
  exact ⟨usable_petFragment, (hiff.mp usable_petFragment).2⟩

/-- A type that can be listed, which has notes. -/
def notedType : NamedType :=
  ⟨"Foo", .object [] [⟨"id", .named "ID", []⟩, ⟨"note", .named "Note", []⟩]⟩

/-- Notes, whose text is given in a format that must be named. -/
def noteType : NamedType :=
  ⟨"Note", .object [] [⟨"text", .named "String", [⟨"format", .nonNull (.named "String"), .unfit⟩]⟩]⟩

/-- A schema with notes. -/
def noteSchema : Schema where
  types := [⟨"ID", .scalar⟩, ⟨"String", .scalar⟩, notedType, noteType,
    ⟨"Query", .object [] [⟨"allFoo", .list (.named "Foo"), []⟩]⟩]
  directives := []
  query? := some "Query"

/-- The default fragment of the type. -/
def noteFragment : Fragment where
  name := "Foo"
  condition := "Foo"
  selections := [.field (some "remoteId") "id" [] [] none, .plain "note" (some [])]

lemma referenceFragments_note :
    referenceFragments noteSchema [fooDeclaration] = .ok fooReferences := by
  rw [referenceFragments, typeReferences, read_fooDeclaration]
  rfl

/-- A default fragment that cannot be asked for: it has a note of which nothing is selected. -/
theorem defaultFragments_not_usable :
    defaultFragments noteSchema [fooDeclaration] [] [] = .ok [("Foo", noteFragment)]
      ∧ ¬ noteFragment.Usable noteSchema := by
  constructor
  · rw [defaultFragments, referenceFragments_note]
    cbv
  · rintro ⟨-, -, hnote, -⟩
    exact (Selection.usable_composite.mp hnote).1 rfl

end RemoteNodes
