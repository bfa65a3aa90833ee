import RemoteNodes.Fragment.Default
import RemoteNodes.Proofs.Fragment.Expansion
import RemoteNodes.Proofs.Keyed
import RemoteNodes.Proofs.Node.Reference
import RemoteNodes.Proofs.Schema.Conforms
/-!
What type fragments select, and the default fragments that are made of them.

* `Supplied`: all required arguments of a field have values.
* `exists_field_of_typeFragment`: the fragment of an object type selects all fields whose required
  arguments are supplied; `mem_typeFragment_of_isAbstract`: that of an abstract type spreads the
  fragments of its possible types.
* `typeFragment_of_get?`: the fragment that is kept under the name of a type.
* `exists_of_defaultFragments`: **the steps from a type fragment to a default fragment**.
-/

namespace RemoteNodes

variable {schema : Schema} {resolvers : List ArgumentResolver} {type : String} {field : OutputField}

/-! ### Fields -/

/-- Every required argument of a field is supplied with a value that there is a literal for. -/
def Supplied (schema : Schema) (resolvers : List ArgumentResolver) (type : String)
    (field : OutputField) : Prop :=
  ∀ input ∈ field.arguments, input.isRequired = true → ∃ value literal,
    Keyed.get? (suppliedValues resolvers type field.name) input.name = some value
      ∧ Literal.ofJson schema input.type value = .ok (some literal)

/-- An argument with a value and a literal for it is given. -/
lemma exists_mem_argumentsFrom {values : Keyed Json} {inputs : List InputField}
    {arguments : List Argument} (h : argumentsFrom schema values inputs = .ok arguments)
    {input : InputField} (hinput : input ∈ inputs) {value : Json} {literal : Literal}
    (hvalue : Keyed.get? values input.name = some value)
    (hliteral : Literal.ofJson schema input.type value = .ok (some literal)) :
    ∃ a ∈ arguments, a.name = input.name := by
  induction inputs generalizing arguments with
  | nil => cases hinput
  | cons first rest ih =>
      rw [argumentsFrom] at h
      rcases List.mem_cons.mp hinput with rfl | hinput
      · simp only [hvalue, hliteral] at h
        cases hrest : argumentsFrom schema values rest with
        | error fault => rw [hrest] at h; cases h
        | ok given =>
            rw [hrest] at h
            cases h
            exact ⟨_, List.mem_cons_self, rfl⟩
      · split at h
        · exact ih h hinput
        · split at h
          · cases h
          · exact ih h hinput
          · cases hrest : argumentsFrom schema values rest with
            | error fault => rw [hrest] at h; cases h
            | ok given =>
                rw [hrest] at h
                cases h
                obtain ⟨a, ha, hname⟩ := ih hrest hinput
                exact ⟨a, List.mem_cons_of_mem _ ha, hname⟩

/-- A field whose required arguments are supplied is selected, with a spread of the fragment of its
type if that is composite. -/
lemma exists_of_fieldSelection? {s? : Option Selection}
    (h : fieldSelection? schema resolvers type field = .ok s?)
    (hsupplied : Supplied schema resolvers type field) :
    ∃ arguments, resolveArguments schema resolvers type field = .ok arguments
      ∧ s? = some (.field none field.name arguments []
        ((schema.composite? field.type.namedType).map fun t => [.spread t.name []])) := by
  obtain ⟨arguments, harguments, h⟩ := bind_eq_ok.mp h
  have hgiven : (field.arguments.all fun i =>
      !i.isRequired || arguments.any (·.name == i.name)) = true := by
    refine List.all_eq_true.mpr fun input hinput => ?_
    cases hrequired : input.isRequired with
    | false => rfl
    | true =>
        obtain ⟨value, literal, hvalue, hliteral⟩ := hsupplied input hinput hrequired
        obtain ⟨a, ha, hname⟩ := exists_mem_argumentsFrom harguments hinput hvalue hliteral
        simpa using ⟨a, ha, hname⟩
  rw [if_pos hgiven] at h
  cases h
  exact ⟨arguments, harguments, rfl⟩

/-! ### Type fragments -/

variable {t : NamedType} {f : Fragment}

/-- The fragment of an abstract type spreads those of its possible types. -/
lemma typeFragment_of_isAbstract (ht : t.isAbstract = true) :
    typeFragment schema resolvers t = .ok
      ⟨none, t.name, t.name, [], (schema.possibleTypes t).map fun p => .spread p.name []⟩ := by
  rw [typeFragment, if_pos ht]
  rfl

/-- The fragment of another type selects nothing but fields, each as by itself. -/
lemma typeFragment_of_not_isAbstract (h : typeFragment schema resolvers t = .ok f)
    (ht : t.isAbstract = false) : ∃ selections?,
      t.fields.mapM (fieldSelection? schema resolvers t.name) = .ok selections?
        ∧ f = ⟨none, t.name, t.name, [], selections?.filterMap id⟩ := by
  rw [typeFragment, if_neg (by simp [ht])] at h
  obtain ⟨selections?, hmap, h⟩ := bind_eq_ok.mp h
  cases h
  exact ⟨selections?, hmap, rfl⟩

lemma typeFragment_name (h : typeFragment schema resolvers t = .ok f) :
    f.name = t.name ∧ f.condition = t.name := by
  cases ht : t.isAbstract with
  | true =>
      rw [typeFragment_of_isAbstract ht] at h
      cases h
      exact ⟨rfl, rfl⟩
  | false =>
      obtain ⟨selections?, -, rfl⟩ := typeFragment_of_not_isAbstract h ht
      exact ⟨rfl, rfl⟩

lemma exists_field_of_typeFragment (h : typeFragment schema resolvers t = .ok f)
    (ht : t.isAbstract = false) (hfield : field ∈ t.fields)
    (hsupplied : Supplied schema resolvers t.name field) :
    ∃ arguments, resolveArguments schema resolvers t.name field = .ok arguments
      ∧ .field none field.name arguments []
        ((schema.composite? field.type.namedType).map fun t => [.spread t.name []])
          ∈ f.selections := by
  obtain ⟨selections?, hmap, rfl⟩ := typeFragment_of_not_isAbstract h ht
  obtain ⟨s?, hs?, hmade⟩ := (mem_of_mapM hmap).1 field hfield
  obtain ⟨arguments, harguments, hs⟩ := exists_of_fieldSelection? hmade hsupplied
  exact ⟨arguments, harguments, List.mem_filterMap.mpr ⟨s?, hs?, hs⟩⟩

/-- The fragment of an object type selects nothing but fields of it, each with the arguments that
are supplied and a spread of the fragment of its type if that is composite. -/
lemma exists_of_mem_typeFragment (h : typeFragment schema resolvers t = .ok f)
    (ht : t.isAbstract = false) {s : Selection} (hs : s ∈ f.selections) :
    ∃ field ∈ t.fields, ∃ arguments,
      resolveArguments schema resolvers t.name field = .ok arguments
        ∧ s = .field none field.name arguments []
          ((schema.composite? field.type.namedType).map fun t => [.spread t.name []]) := by
  obtain ⟨selections?, hmap, rfl⟩ := typeFragment_of_not_isAbstract h ht
  obtain ⟨s?, hs?, hs⟩ := List.mem_filterMap.mp hs
  obtain rfl : s? = some s := hs
  obtain ⟨field, hfield, hmade⟩ := (mem_of_mapM hmap).2 _ hs?
  obtain ⟨arguments, harguments, hmade⟩ := bind_eq_ok.mp hmade
  split at hmade
  · cases hmade
    exact ⟨field, hfield, arguments, harguments, rfl⟩
  · cases hmade

/-- The fragment that is kept under a name belongs to the first type of the name. -/
lemma exists_type_of_get? {types : List NamedType} {fragments : List Fragment}
    (h : List.Forall₂ (fun t f => typeFragment schema resolvers t = .ok f) types fragments)
    (hf : Keyed.get? (fragments.map fun f => (f.name, f)) type = some f) :
    ∃ t, types.find? (fun t => t.name == type) = some t
      ∧ typeFragment schema resolvers t = .ok f := by
  induction h with
  | nil => cases hf
  | @cons first g rest _ hfirst _ ih =>
      rw [List.map_cons, Keyed.get?, (typeFragment_name hfirst).1] at hf
      by_cases hname : first.name = type
      · rw [if_pos hname] at hf
        cases hf
        exact ⟨first, List.find?_cons_of_pos (by simp [hname]), hfirst⟩
      · rw [if_neg hname] at hf
        obtain ⟨t, ht, htype⟩ := ih hf
        exact ⟨t, (List.find?_cons_of_neg (by simp [hname])).trans ht, htype⟩

lemma find?_filter_of_find? {α : Type} {p q : α → Bool} {xs : List α} {x : α}
    (h : xs.find? q = some x) (hx : p x = true) : (xs.filter p).find? q = some x := by
  obtain ⟨hq, before, after, rfl, hbefore⟩ := List.find?_eq_some_iff_append.mp h
  refine List.find?_eq_some_iff_append.mpr ⟨hq, before.filter p, after.filter p, ?_, ?_⟩
  · rw [List.filter_append, List.filter_cons_of_pos hx]
  · exact fun y hy => hbefore y (List.mem_filter.mp hy).1

/-- The fragment that is kept under the name of a composite type is the one of that type. -/
lemma typeFragment_of_get? {fragments : Keyed Fragment}
    (h : typeFragments schema resolvers = .ok fragments) (ht : schema.type? type = some t)
    (hcomposite : t.isComposite = true) (hf : Keyed.get? fragments type = some f) :
    typeFragment schema resolvers t = .ok f := by
  obtain ⟨made, hmade, h⟩ := bind_eq_ok.mp h
  cases h
  obtain ⟨u, hu, htype⟩ := exists_type_of_get? (mapM_eq_ok.mp hmade) hf
  have hname : u.name = t.name := by
    have hu : u.name = type := by simpa using List.find?_some hu
    rw [hu, Schema.name_of_type? ht]
  have hmeta : isMetaName t.name = false := by
    have hkept := (List.mem_filter.mp (List.mem_of_find?_eq_some hu)).2
    rw [Bool.and_eq_true, Bool.not_eq_true', hname] at hkept
    exact hkept.1
  have hfirst := find?_filter_of_find? ht
    (p := fun t => !isMetaName t.name && t.isComposite) (by simp [hmeta, hcomposite])
  obtain rfl : t = u := Option.some.inj (hfirst.symm.trans hu)
  exact htype

/-! ### Default fragments -/

/-- An inlined fragment is the fragment with its selections inlined. -/
lemma Fragment.inlined_eq_ok {x : Inlining} {inlined : Fragment} : f.inlined x = .ok inlined
    ↔ ∃ ss, x.inlineAll [] f.selections = .ok ss ∧ inlined = { f with selections := ss } := by
  rw [Fragment.inlined]
  cases x.inlineAll [] f.selections with
  | error fault => exact iff_of_false (fun h => by cases h) (by rintro ⟨_, h, -⟩; cases h)
  | ok ss => simp [Except.map, eq_comm]

/-- A default fragment is the fragment of its type, inlined, with aliases, and unwrapped. -/
theorem exists_of_defaultFragments {declarations : List NodeDeclaration} {aliases : Aliases}
    {fragments : Keyed Fragment}
    (h : defaultFragments schema declarations aliases resolvers = .ok fragments) :
    ∃ x : Inlining, typeFragments schema resolvers = .ok x.fragments
      ∧ referenceFragments schema declarations = .ok x.references
      ∧ x.aliases = Keyed.overlay defaultAliases aliases
      ∧ ∀ d ∈ declarations, ∃ t f inlined, schema.type? d.type = some t ∧ t.isObject = true
        ∧ typeFragment schema resolvers t = .ok f ∧ f.inlined x = .ok inlined
        ∧ Keyed.get? fragments d.type = some (inlined.rewrite schema
            (aliasRewriting schema (declarations.map (·.type)) x.aliases)).unwrapped := by
  obtain ⟨typed, htyped, h⟩ := bind_eq_ok.mp h
  obtain ⟨references, hreferences, h⟩ := bind_eq_ok.mp h
  obtain ⟨entries, hentries, h⟩ := bind_eq_ok.mp h
  cases h
  refine ⟨⟨typed, references, _⟩, htyped, hreferences, rfl, fun d hd => ?_⟩
  obtain ⟨made, hmade, -⟩ := bind_eq_ok.mp hreferences
  obtain ⟨t, ht, hobject⟩ := isObject_of_typeReferences hmade hd
  have hentry {entry : String × Fragment} {type : String}
      (h : (do return (type, ← defaultFragment schema (declarations.map (·.type))
        ⟨typed, references, Keyed.overlay defaultAliases aliases⟩ type) :
          Except Fault (String × Fragment)) = .ok entry) :
      entry.1 = type ∧ defaultFragment schema (declarations.map (·.type))
        ⟨typed, references, Keyed.overlay defaultAliases aliases⟩ type = .ok entry.2 := by
    obtain ⟨f, hf, h⟩ := bind_eq_ok.mp h
    cases h
    exact ⟨rfl, hf⟩
  obtain ⟨hgives, hcomes⟩ := mem_of_mapM hentries
  obtain ⟨f, hf⟩ : ∃ f, Keyed.get? (Keyed.ofPairs entries) d.type = some f := by
    obtain ⟨entry, hmem, h⟩ := hgives d.type (List.mem_map_of_mem hd)
    exact Keyed.exists_get?_ofPairs ((hentry h).1 ▸ List.mem_map_of_mem hmem)
  obtain ⟨type, -, h⟩ := hcomes _ (Keyed.mem_of_get?_ofPairs hf)
  obtain ⟨rfl, h⟩ := hentry h
  rw [defaultFragment] at h
  cases hget : Keyed.get? typed d.type with
  | none =>
      simp only [hget] at h
      cases h
  | some g =>
      simp only [hget] at h
      obtain ⟨inlined, hinlined, h⟩ := bind_eq_ok.mp h
      cases h
      exact ⟨t, g, inlined, ht, hobject,
        typeFragment_of_get? htyped ht (Schema.isComposite_of_isObject hobject) hget, hinlined, hf⟩

end RemoteNodes
