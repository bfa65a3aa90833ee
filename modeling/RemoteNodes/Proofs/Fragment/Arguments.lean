import RemoteNodes.Proofs.Fragment.Usable
/-!
Which values the arguments of type fragments get. Several resolvers may supply one for the same
argument; the first of these counts, before it is known whether there is a literal for it.

* `suppliedBy?`, `firstSupplied?`: the value that one resolver supplies for an argument, and the
  first one that any does; `get?_suppliedValues`: it is the one that is looked at.
* `usableLiteral?`, `firstUsable?`: the literal of a value that is not null, and the first one that
  a resolver supplies a value for.
* `argumentsFrom_eq`: the arguments of a field, where all values fit.
* `typeFragment_resolved`: **a field gets all of its required arguments from the first resolver with
  a usable value for each exactly if no resolver before that one supplies a value as well**;
  `typeFragment_shadowed`: one that does.
-/

namespace RemoteNodes

/-! ### Values that are supplied -/

/-- The value that a resolver supplies for an argument of a field. -/
def suppliedBy? (resolve : ArgumentResolver) (type field name : String) : Option Json :=
  (resolve type field).findSome? fun p => if p.1 = name then p.2 else none

/-- The first value that a resolver supplies for an argument of a field. -/
def firstSupplied? (resolvers : List ArgumentResolver) (type field name : String) : Option Json :=
  resolvers.findSome? fun resolve => suppliedBy? resolve type field name

/-- The literal of a value at a type, if there is one. -/
def literal? (schema : Schema) (type : TypeRef) (value : Json) : Option Literal :=
  (Literal.ofJson schema type value).toOption.join

/-- The literal of a value that is not null. -/
def usableLiteral? (schema : Schema) (type : TypeRef) : Json → Option Literal
  | .null => none
  | value => literal? schema type value

/-- The literal of the first usable value that a resolver supplies for an argument. -/
def firstUsable? (schema : Schema) (resolvers : List ArgumentResolver) (type field : String)
    (input : InputField) : Option Literal :=
  resolvers.findSome? fun resolve =>
    (suppliedBy? resolve type field input.name).bind (usableLiteral? schema input.type)

/-- The arguments of a field that the first values have literals for. -/
def firstArguments (schema : Schema) (resolvers : List ArgumentResolver) (type : String)
    (field : OutputField) : List Argument :=
  field.arguments.filterMap fun input =>
    ((firstSupplied? resolvers type field.name input.name).bind
      (literal? schema input.type)).map (Argument.mk input.name)

/-- Each value that a resolver supplies for an argument of a field fits the argument, whether there
is a literal for it or not. -/
def Fitting (schema : Schema) (resolvers : List ArgumentResolver) (type : String)
    (field : OutputField) : Prop :=
  ∀ resolve ∈ resolvers, ∀ input ∈ field.arguments, ∀ value fault,
    suppliedBy? resolve type field.name input.name = some value →
      Literal.ofJson schema input.type value ≠ .error fault

/-- For each required argument of a field the first value that is supplied is usable. -/
def UsableFirst (schema : Schema) (resolvers : List ArgumentResolver) (type : String)
    (field : OutputField) : Prop :=
  ∀ input ∈ field.arguments, input.isRequired = true → ∃ value literal,
    firstSupplied? resolvers type field.name input.name = some value
      ∧ usableLiteral? schema input.type value = some literal

section Supplied

variable {schema : Schema} {resolvers : List ArgumentResolver} {type name : String}
  {field : OutputField} {input : InputField} {value : Json} {literal : Literal}

/-- Keeps a value under its name, unless there is one. -/
def keepFirst (m : Keyed Json) (p : String × Option Json) : Keyed Json :=
  match p.2 with
  | some value => if Keyed.has m p.1 then m else Keyed.put m p.1 value
  | none => m

lemma get?_foldl_keepFirst (pairs : Keyed (Option Json)) (m : Keyed Json) (name : String) :
    Keyed.get? (pairs.foldl keepFirst m) name
      = (Keyed.get? m name).or (pairs.findSome? fun p => if p.1 = name then p.2 else none) := by
  induction pairs generalizing m with
  | nil => simp
  | cons p pairs ih =>
      obtain ⟨key, value?⟩ := p
      rw [List.foldl_cons, ih, List.findSome?_cons]
      cases value? with
      | none => simp [keepFirst]
      | some value =>
          by_cases hkey : key = name
          · subst hkey
            cases hm : Keyed.get? m key with
            | none => simp [keepFirst, Keyed.has, hm]
            | some earlier => simp [keepFirst, Keyed.has, hm]
          · cases hm : Keyed.has m key with
            | true => simp [keepFirst, hm, hkey]
            | false => simp [keepFirst, hm, hkey, Keyed.get?_put_of_ne m value (Ne.symm hkey)]

/-- The value of an argument is the first one that a resolver supplies. -/
lemma get?_suppliedValues (resolvers : List ArgumentResolver) (type field name : String) :
    Keyed.get? (suppliedValues resolvers type field) name
      = firstSupplied? resolvers type field name := by
  have hfold : suppliedValues resolvers type field
      = (resolvers.flatMap fun resolve => resolve type field).foldl keepFirst [] := rfl
  rw [hfold, get?_foldl_keepFirst, Keyed.get?_nil, Option.none_or, firstSupplied?]
  clear hfold
  induction resolvers with
  | nil => rfl
  | cons resolve rest ih =>
      rw [List.flatMap_cons, List.findSome?_append, ih, List.findSome?_cons, suppliedBy?]
      cases (resolve type field).findSome? fun p => if p.1 = name then p.2 else none <;> rfl

lemma literal?_eq_some :
    literal? schema input.type value = some literal
      ↔ Literal.ofJson schema input.type value = .ok (some literal) := by
  rw [literal?]
  cases Literal.ofJson schema input.type value with
  | error fault => simp [Except.toOption]
  | ok literal? => simp [Except.toOption]

/-- Null is no literal for a required argument, so all of its literals are usable. -/
lemma usableLiteral?_of_isRequired (h : input.isRequired = true) (value : Json) :
    usableLiteral? schema input.type value = literal? schema input.type value := by
  cases value with
  | null =>
      have hnonNull : input.type.isNonNull = true := (Bool.and_eq_true_iff.mp h).1
      rw [usableLiteral?, literal?, Literal.ofJson_null, if_pos hnonNull]
      rfl
  | _ => rfl

/-- All required arguments are supplied exactly if for each the first value is usable. -/
lemma supplied_iff_usableFirst :
    Supplied schema resolvers type field ↔ UsableFirst schema resolvers type field := by
  refine forall_congr' fun input => forall_congr' fun _ => forall_congr' fun hrequired => ?_
  simp only [get?_suppliedValues, usableLiteral?_of_isRequired hrequired, literal?_eq_some]

/-- If the first value that is supplied is usable, then it is the first usable one. -/
lemma firstUsable?_of_firstSupplied?
    (h : firstSupplied? resolvers type field.name input.name = some value)
    (hliteral : usableLiteral? schema input.type value = some literal) :
    firstUsable? schema resolvers type field.name input = some literal := by
  obtain ⟨before, resolve, after, rfl, hvalue, hbefore⟩ := List.findSome?_eq_some_iff.mp h
  refine List.findSome?_eq_some_iff.mpr ⟨before, resolve, after, rfl, ?_, fun r hr => ?_⟩
  · rw [hvalue, Option.bind_some, hliteral]
  · rw [hbefore r hr, Option.bind_none]

/-! ### Arguments -/

/-- The arguments of a field, where all values fit: one for each input whose value has a literal. -/
lemma argumentsFrom_eq {values : Keyed Json} {inputs : List InputField}
    (h : ∀ input ∈ inputs, ∀ value fault, Keyed.get? values input.name = some value →
      Literal.ofJson schema input.type value ≠ .error fault) :
    argumentsFrom schema values inputs = .ok (inputs.filterMap fun input =>
      ((Keyed.get? values input.name).bind (literal? schema input.type)).map
        (Argument.mk input.name)) := by
  induction inputs with
  | nil => rfl
  | cons input rest ih =>
      have hrest := ih fun i hi => h i (List.mem_cons_of_mem _ hi)
      have hfits := h input List.mem_cons_self
      rw [argumentsFrom, List.filterMap_cons]
      cases hvalue : Keyed.get? values input.name with
      | none => simpa using hrest
      | some value =>
          cases hliteral : Literal.ofJson schema input.type value with
          | error fault => exact absurd hliteral (hfits value fault hvalue)
          | ok literal? =>
              cases literal? with
              | none => simpa [literal?, hliteral, Except.toOption] using hrest
              | some literal => simp [literal?, hliteral, Except.toOption, hrest, Except.map]

/-- A field whose values all fit has the arguments that the first values have literals for. -/
lemma resolveArguments_eq (h : Fitting schema resolvers type field) :
    resolveArguments schema resolvers type field
      = .ok (firstArguments schema resolvers type field) := by
  rw [resolveArguments, argumentsFrom_eq fun input hinput value fault hvalue => ?_]
  · simp only [get?_suppliedValues, firstArguments]
  · rw [get?_suppliedValues] at hvalue
    obtain ⟨before, resolve, after, rfl, hvalue, -⟩ := List.findSome?_eq_some_iff.mp hvalue
    exact h resolve (List.mem_append_right _ List.mem_cons_self) input hinput value fault hvalue

/-- The arguments are some of those that the field has, in its order. -/
lemma names_firstArguments_sublist (schema : Schema) (resolvers : List ArgumentResolver)
    (type : String) (field : OutputField) :
    ((firstArguments schema resolvers type field).map (·.name)).Sublist
      (field.arguments.map (·.name)) := by
  rw [firstArguments]
  induction field.arguments with
  | nil => exact .slnil
  | cons input rest ih =>
      rw [List.filterMap_cons]
      cases (firstSupplied? resolvers type field.name input.name).bind
          (literal? schema input.type) with
      | none => exact ih.cons input.name
      | some literal => exact ih.cons_cons input.name

/-- An argument is given with the literal of the first value that is supplied for it. -/
lemma mem_firstArguments_iff (hnodup : (field.arguments.map (·.name)).Nodup)
    (hinput : input ∈ field.arguments) :
    ⟨input.name, literal⟩ ∈ firstArguments schema resolvers type field ↔ ∃ value,
      firstSupplied? resolvers type field.name input.name = some value
        ∧ Literal.ofJson schema input.type value = .ok (some literal) := by
  rw [firstArguments, List.mem_filterMap]
  constructor
  · rintro ⟨other, hother, h⟩
    obtain ⟨given, hgiven, heq⟩ := Option.map_eq_some_iff.mp h
    obtain ⟨hname, rfl⟩ := Argument.mk.inj heq
    obtain rfl := List.inj_on_of_nodup_map hnodup hother hinput hname
    obtain ⟨value, hvalue, hliteral⟩ := Option.bind_eq_some_iff.mp hgiven
    exact ⟨value, hvalue, literal?_eq_some.mp hliteral⟩
  · rintro ⟨value, hvalue, hliteral⟩
    refine ⟨input, hinput, ?_⟩
    rw [hvalue, Option.bind_some, literal?_eq_some.mpr hliteral, Option.map_some]

end Supplied

/-! ### Fields of type fragments -/

/-- How a field of a type is treated in the fragment of the type. -/
structure FieldResolved (schema : Schema) (resolvers : List ArgumentResolver) (t : NamedType)
    (f : Fragment) (field : OutputField) (arguments : List Argument) : Prop where
  /-- These are the arguments of the field. -/
  resolved : resolveArguments schema resolvers t.name field = .ok arguments
  /-- They are arguments that the field has, in schema order. -/
  ordered : (arguments.map (·.name)).Sublist (field.arguments.map (·.name))
  /-- None is repeated. -/
  nodup : (arguments.map (·.name)).Nodup
  /-- Each has the literal of the first value that is supplied for it. -/
  first : ∀ input ∈ field.arguments, ∀ literal, ⟨input.name, literal⟩ ∈ arguments ↔ ∃ value,
    firstSupplied? resolvers t.name field.name input.name = some value
      ∧ Literal.ofJson schema input.type value = .ok (some literal)
  /-- The field is selected, with these arguments only, if the first values are usable. -/
  selected : ∀ alias? arguments' directives selections?,
    .field alias? field.name arguments' directives selections? ∈ f.selections
      ↔ UsableFirst schema resolvers t.name field
        ∧ alias? = none ∧ arguments' = arguments ∧ directives = []
        ∧ selections? = (schema.composite? field.type.namedType).map fun u => [.spread u.name []]
  /-- Only then is it selected with the first usable literal for each required argument. -/
  usable : ((∃ selections?, .field none field.name arguments [] selections? ∈ f.selections)
      ∧ ∀ input ∈ field.arguments, input.isRequired = true → ∃ literal,
        firstUsable? schema resolvers t.name field.name input = some literal
          ∧ ⟨input.name, literal⟩ ∈ arguments)
    ↔ UsableFirst schema resolvers t.name field

section Fields

variable {schema : Schema} {resolvers : List ArgumentResolver} {t : NamedType} {f : Fragment}
  {field : OutputField}

/-- An object type has a fragment if no value that is supplied for its fields is unfit. -/
lemma exists_typeFragment (ht : t.isAbstract = false)
    (hfits : ∀ field ∈ t.fields, Fitting schema resolvers t.name field) :
    ∃ f, typeFragment schema resolvers t = .ok f := by
  have hfields : ∀ field ∈ t.fields, ∃ s?,
      fieldSelection? schema resolvers t.name field = .ok s? := by
    intro field hfield
    rw [fieldSelection?, resolveArguments_eq (hfits field hfield)]
    exact (em _).elim (fun h => ⟨_, if_pos h⟩) fun h => ⟨_, if_neg h⟩
  obtain ⟨made, hmade⟩ := exists_mapM hfields
  exact ⟨_, by rw [typeFragment, if_neg (by simp [ht]), hmade]; rfl⟩

/-- A field is selected with these arguments exactly if the first values are usable. -/
lemma mem_typeFragment_iff_usableFirst (hschema : schema.Distinct) (ht : t ∈ schema.types)
    (habstract : t.isAbstract = false) (hf : typeFragment schema resolvers t = .ok f)
    (hfield : field ∈ t.fields) (hfits : Fitting schema resolvers t.name field)
    {alias? : Option String} {arguments : List Argument} {directives : List Directive}
    {selections? : Option (List Selection)} :
    .field alias? field.name arguments directives selections? ∈ f.selections
      ↔ UsableFirst schema resolvers t.name field ∧ alias? = none
        ∧ arguments = firstArguments schema resolvers t.name field ∧ directives = []
        ∧ selections? = (schema.composite? field.type.namedType).map
          fun u => [.spread u.name []] := by
  have hresolved := resolveArguments_eq hfits
  rw [mem_typeFragment_iff hschema ht hf habstract, ← supplied_iff_usableFirst]
  constructor
  · rintro ⟨other, hother, hsupplied, arguments, harguments, heq⟩
    obtain ⟨rfl, hname, rfl, rfl, rfl⟩ := Selection.field.inj heq
    obtain rfl := List.inj_on_of_nodup_map (hschema.fields t ht) hother hfield hname.symm
    exact ⟨hsupplied, rfl, Except.ok.inj (harguments.symm.trans hresolved), rfl, rfl⟩
  · rintro ⟨hsupplied, rfl, rfl, rfl, rfl⟩
    exact ⟨field, hfield, hsupplied, _, hresolved, rfl⟩

lemma fieldResolved (hschema : schema.Distinct) (ht : t ∈ schema.types)
    (habstract : t.isAbstract = false) (hf : typeFragment schema resolvers t = .ok f)
    (hfield : field ∈ t.fields) (hfits : Fitting schema resolvers t.name field) :
    FieldResolved schema resolvers t f field (firstArguments schema resolvers t.name field) where
  resolved := resolveArguments_eq hfits
  ordered := names_firstArguments_sublist schema resolvers t.name field
  nodup := (names_firstArguments_sublist schema resolvers t.name field).nodup
    (hschema.arguments t ht field hfield)
  first _ hinput _ := mem_firstArguments_iff (hschema.arguments t ht field hfield) hinput
  selected _ _ _ _ := mem_typeFragment_iff_usableFirst hschema ht habstract hf hfield hfits
  usable := by
    constructor
    · rintro ⟨⟨selections?, hmem⟩, -⟩
      exact ((mem_typeFragment_iff_usableFirst hschema ht habstract hf hfield hfits).mp hmem).1
    · intro husable
      have hmem := (mem_typeFragment_iff_usableFirst hschema ht habstract hf hfield hfits).mpr
        ⟨husable, rfl, rfl, rfl, rfl⟩
      refine ⟨⟨_, hmem⟩, fun input hinput hrequired => ?_⟩
      obtain ⟨value, literal, hvalue, hliteral⟩ := husable input hinput hrequired
      refine ⟨literal, firstUsable?_of_firstSupplied? hvalue hliteral, ?_⟩
      rw [usableLiteral?_of_isRequired hrequired] at hliteral
      exact (mem_firstArguments_iff (hschema.arguments t ht field hfield) hinput).mpr
        ⟨value, hvalue, literal?_eq_some.mp hliteral⟩

end Fields

/-- **The arguments in the fragment of an object type** are those with literals for the first values
that resolvers supply, in schema order. A field is selected with the first usable value for each
required argument exactly if that is the first value that is supplied for it at all. -/
theorem typeFragment_resolved {schema : Schema} {resolvers : List ArgumentResolver} {t : NamedType}
    (hschema : schema.Distinct) (ht : t ∈ schema.types) (hobject : t.isObject = true)
    (hfits : ∀ field ∈ t.fields, Fitting schema resolvers t.name field) :
    ∃ f, typeFragment schema resolvers t = .ok f ∧ ∀ field ∈ t.fields, ∃ arguments,
      FieldResolved schema resolvers t f field arguments := by
  have habstract := NamedType.not_isAbstract_of_isObject hobject
  obtain ⟨f, hf⟩ := exists_typeFragment habstract hfits
  exact ⟨f, hf, fun field hfield =>
    ⟨_, fieldResolved hschema ht habstract hf hfield (hfits field hfield)⟩⟩

/-! ### Formats of a text -/

/-- One resolver for each of these formats of texts. -/
def formatResolvers (formats : List Json) : List ArgumentResolver :=
  formats.map fun format _ field => if field = "text" then [("format", some format)] else []

/-- The format of a text, which must be named. -/
def formatInput : InputField := ⟨"format", .nonNull (.named "String"), .unfit⟩

/-- The text of a note. -/
def textField : OutputField := ⟨"text", .named "String", [formatInput]⟩

lemma distinct_noteSchema : noteSchema.Distinct where
  types := by decide
  fields := by decide
  arguments := by decide
  introspection := by decide +kernel

/-- Texts and null are formats that fit. -/
lemma fitting_noteType {formats : List Json}
    (h : ∀ format ∈ formats, format = .null ∨ ∃ s, format = .str s) :
    ∀ field ∈ noteType.fields, Fitting noteSchema (formatResolvers formats) "Note" field := by
  intro field hfield resolve hresolve input hinput value fault hvalue hfault
  obtain rfl : field = textField := List.mem_singleton.mp hfield
  obtain rfl : input = formatInput := List.mem_singleton.mp hinput
  obtain ⟨format, hformat, rfl⟩ := List.mem_map.mp hresolve
  obtain rfl : format = value := Option.some.inj hvalue
  rcases h format hformat with rfl | ⟨s, rfl⟩
  · cases hfault
  · cases hfault

/-- The first of two formats that are supplied is asked for. -/
theorem typeFragment_resolved_text :
    (∀ field ∈ noteType.fields,
        Fitting noteSchema (formatResolvers [.str "html", .str "plain"]) "Note" field)
      ∧ ∃ f, typeFragment noteSchema (formatResolvers [.str "html", .str "plain"]) noteType = .ok f
        ∧ .field none "text" [⟨"format", .string "html" false⟩] [] none ∈ f.selections := by
  have hfits : ∀ field ∈ noteType.fields,
      Fitting noteSchema (formatResolvers [.str "html", .str "plain"]) "Note" field :=
    fitting_noteType (by simp)
  obtain ⟨f, hf, hfields⟩ := typeFragment_resolved distinct_noteSchema
    (by simp [noteSchema]) rfl hfits
  obtain ⟨arguments, hfield⟩ := hfields textField List.mem_cons_self
  have hfirst : UsableFirst noteSchema (formatResolvers [.str "html", .str "plain"]) "Note"
      textField := by
    intro input hinput _
    obtain rfl : input = formatInput := List.mem_singleton.mp hinput
    exact ⟨.str "html", .string "html" false, rfl, rfl⟩
  have harguments : arguments = [⟨"format", .string "html" false⟩] :=
    Except.ok.inj (hfield.resolved.symm.trans rfl)
  exact ⟨hfits, f, hf, (hfield.selected _ _ _ _).mpr ⟨hfirst, rfl, harguments.symm, rfl, rfl⟩⟩

/-- A null hides the format that another resolver supplies, and the text is not selected. -/
theorem typeFragment_shadowed :
    (∀ field ∈ noteType.fields,
        Fitting noteSchema (formatResolvers [.null, .str "html"]) "Note" field)
      ∧ (∀ field ∈ noteType.fields, ∀ input ∈ field.arguments,
        firstUsable? noteSchema (formatResolvers [.null, .str "html"]) "Note" field.name input
          = some (.string "html" false))
      ∧ typeFragment noteSchema (formatResolvers [.null, .str "html"]) noteType
        = .ok ⟨none, "Note", "Note", [], []⟩ := by
  refine ⟨fitting_noteType (by simp), fun field hfield input hinput => ?_, by cbv⟩
  obtain rfl : field = textField := List.mem_singleton.mp hfield
  obtain rfl : input = formatInput := List.mem_singleton.mp hinput
  rfl

end RemoteNodes
