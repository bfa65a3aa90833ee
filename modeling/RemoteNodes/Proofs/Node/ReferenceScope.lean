import Mathlib.Tactic
import RemoteNodes.Proofs.Node.NodeInterfaces
import RemoteNodes.Proofs.Node.Scope
import RemoteNodes.Proofs.Schema.Lawful
/-!
Which fields of references are defined where they are selected. References of interfaces unite those
of their possible types, whose fields may have narrower types than the fields of the interface.

* `DefinedAlong`: each of some names is a field of the type that the names before it lead to.
* `ScopedIn.definedAlong`, `scopedIn_iff_definedAlong`: what is in scope has its fields defined
  along their names, and plain fields are in scope if that holds.
* `InterfaceScope`: what is defined of the reference of an interface.
* `referenceFragments_scope`: **references of node types are in scope; those of interfaces are at
  the top, and deeper down from one of the possible types**; `referenceFragments_unscoped`: but not
  always from the interface.
-/

namespace RemoteNodes

/-! ### Fields along names -/

/-- Each name is a field that is defined on the type which the names before it lead to, starting
from one type. Introspection fields are left aside with all that they hold. -/
def DefinedAlong (schema : Schema) : Option NamedType → List String → Prop
  | _, [] => True
  | parent?, name :: path => isMetaName name = true
    ∨ ((schema.fieldType? parent? name).isSome = true
      ∧ DefinedAlong schema (schema.insideField? parent? name) path)

section Along

variable {schema : Schema} {parent? : Option NamedType} {ss : List Selection} {s : Selection}
  {path : List String} {selections? : Option (List Selection)}

/-- Fields that are in scope are defined along their names. -/
lemma ScopedIn.definedAlong (h : ScopedIn schema parent? ss)
    (hfield : FieldAt ss path selections?) : DefinedAlong schema parent? path := by
  induction hfield generalizing parent? with
  | @here ss alias? name arguments directives selections? hs =>
      have hscoped := scopedIn_iff.mp h _ hs
      cases selections? with
      | none => exact (Selection.scoped_leaf.mp hscoped).imp_right fun hfield => ⟨hfield, trivial⟩
      | some inner =>
          exact (Selection.scoped_composite.mp hscoped).imp_right (.imp_right fun _ => trivial)
  | inside hs _ ih =>
      have hscoped := scopedIn_iff.mp h _ hs
      exact (Selection.scoped_composite.mp hscoped).imp_right (.imp_right ih)

/-- A plain field is in scope if all fields in it are defined along their names. -/
lemma Selection.Bare.scoped (hs : s.Bare)
    (h : ∀ path, HasPath [s] path → DefinedAlong schema parent? path) :
    s.Scoped schema parent? := by
  induction hs generalizing parent? with
  | leaf name =>
      have hname := h [name] ⟨_, .here (List.mem_singleton_self _)⟩
      exact scoped_leaf.mpr (hname.imp_right And.left)
  | @composite name ss _ ih =>
      have hname := h [name] ⟨_, .here (List.mem_singleton_self _)⟩
      refine scoped_composite.mpr (Bool.eq_false_or_eq_true (isMetaName name) |>.imp_right ?_)
      intro hmeta
      refine ⟨(hname.resolve_left (by simp [hmeta])).1, scopedIn_iff.mpr fun s hs => ?_⟩
      refine ih s hs fun path ⟨selections?, hpath⟩ => ?_
      have hbelow := h (name :: path) ⟨selections?, .inside (List.mem_singleton_self _)
        (fieldAt_iff_exists_mem.mpr ⟨s, hs, hpath⟩)⟩
      exact (hbelow.resolve_left (by simp [hmeta])).2

/-- Plain fields are in scope exactly if all fields in them are defined along their names. -/
theorem scopedIn_iff_definedAlong (hbare : ∀ s ∈ ss, s.Bare) :
    ScopedIn schema parent? ss ↔ ∀ path, HasPath ss path → DefinedAlong schema parent? path := by
  constructor
  · rintro h path ⟨selections?, hfield⟩
    exact h.definedAlong hfield
  · refine fun h => scopedIn_iff.mpr fun s hs => (hbare s hs).scoped fun path hpath => h path ?_
    obtain ⟨selections?, hfield⟩ := hpath
    exact ⟨selections?, fieldAt_iff_exists_mem.mpr ⟨s, hs, hfield⟩⟩

end Along

/-! ### References -/

/-- What is defined of the fields in the reference of an interface. -/
structure InterfaceScope (schema : Schema) (references : References) (i : NamedType)
    (f : Fragment) : Prop where
  /-- At the top there are fields of the interface, and type names. -/
  top : ∀ field ∈ fieldNames f.selections, field ≠ "__typename" →
    ∃ definition ∈ i.fields, definition.name = field
  /-- At any depth, a field is defined if one starts from some possible type. -/
  along : ∀ path, HasPath f.selections path →
    ∃ p ∈ schema.possibleTypes i, DefinedAlong schema (some p) path
  /-- It is defined from the interface, too, exactly if all fields are that the possible types have
  in their references. -/
  exact : ScopedIn schema (some i) f.selections ↔ ∀ p ∈ schema.possibleTypes i, ∀ g,
    Keyed.get? references p.name = some g → ∀ path, HasPath g.selections path →
      DefinedAlong schema (some i) path
  /-- That is so if no field with selections has a narrower type on a possible type. -/
  same : (∀ p ∈ schema.possibleTypes i, ∀ g, Keyed.get? references p.name = some g →
      ∀ field inner, FieldAt g.selections [field] (some inner) →
        schema.insideField? (some i) field = schema.insideField? (some p) field) →
    ScopedIn schema (some i) f.selections

section References

variable {schema : Schema} {declarations : List NodeDeclaration} {references : References}
  {entries : List (NamedType × Fragment)} {name : String} {f g : Fragment} {i p : NamedType}

/-- A field of a type at the top, and from there on what is defined from a type with the same type
inside the field, is defined from the type. -/
lemma DefinedAlong.of_same {path : List String} {ss : List Selection}
    (h : DefinedAlong schema (some p) path) (hpath : HasPath ss path)
    (htop : ∀ field ∈ fieldNames ss, isMetaName field = true
      ∨ (schema.fieldType? (some i) field).isSome = true)
    (hsame : ∀ field inner, FieldAt ss [field] (some inner) →
      schema.insideField? (some i) field = schema.insideField? (some p) field) :
    DefinedAlong schema (some i) path := by
  obtain ⟨selections?, hfield⟩ := hpath
  cases hfield with
  | here hs =>
      exact (htop _ (mem_fieldNames.mpr ⟨_, _, _, _, hs⟩)).imp_right fun hfield => ⟨hfield, trivial⟩
  | inside hs _ =>
      rcases h with hmeta | ⟨-, hbelow⟩
      · exact .inl hmeta
      · refine (htop _ (mem_fieldNames.mpr ⟨_, _, _, _, hs⟩)).imp_right fun hfield => ⟨hfield, ?_⟩
        rwa [hsame _ _ (.here hs)]

/-- What stands under the name of an object type is what is declared for it. -/
lemma get?_references_of_isObject (hschema : schema.Lawful)
    (h : typeReferences schema 0 declarations = .ok entries)
    (hp : schema.type? p.name = some p) (hobject : p.isObject = true) :
    Keyed.get? (Keyed.overlay (declaredReferences entries)
        ((mentionedInterfaces (entries.map (·.1))).filterMap fun name =>
          (interfaceReference? schema (declaredReferences entries) name).map (name, ·))) p.name
      = Keyed.get? (declaredReferences entries) p.name := by
  rw [Keyed.get?_overlay_filterMap, if_neg]
  intro hmentioned
  obtain ⟨t, ht, himplements⟩ := mem_mentionedInterfaces.mp hmentioned
  obtain ⟨⟨t', f⟩, hentry, rfl⟩ := List.mem_map.mp ht
  obtain ⟨-, d, -, -, -, -, htype, -⟩ := exists_of_mem_typeReferences h hentry
  have hmem := Schema.mem_of_type? (Option.filter_eq_some_iff.mp htype).1
  rw [hschema.interface t' hmem p.name himplements p hp] at hobject
  cases hobject

/-- The reference of what is no node type is merged of those of its possible types, which are node
types, and has at the top what the interface has. -/
lemma exists_of_get?_references (hschema : schema.Lawful)
    (h : referenceFragments schema declarations = .ok references)
    (hname : ¬ IsNode declarations name) (hf : Keyed.get? references name = some f) :
    ∃ (i : NamedType) (fragments : List Fragment), schema.type? name = some i
      ∧ (∀ g, g ∈ fragments
        ↔ ∃ p ∈ schema.possibleTypes i, Keyed.get? references p.name = some g)
      ∧ (∀ p ∈ schema.possibleTypes i, IsNode declarations p.name)
      ∧ f.selections = mergeAll [] (fragments.flatMap (·.selections))
      ∧ declaresAll i f.selections = true := by
  obtain ⟨entries, hentries, h⟩ := bind_eq_ok.mp h
  obtain rfl := Except.ok.inj h
  rcases Keyed.mem_of_get?_overlay hf with hf | hf
  swap
  · obtain ⟨_, _, hdeclared, -⟩ := declares_of_get? hentries hf
    exact absurd hdeclared.isNode hname
  obtain ⟨name', -, hf⟩ := List.mem_filterMap.mp hf
  obtain ⟨f', hf', heq⟩ := Option.map_eq_some_iff.mp hf
  cases heq
  obtain ⟨i, fragments, hi, hfragments, hdeclares, hmerged⟩ := interfaceReference?_eq_some.mp hf'
  refine ⟨i, fragments, hi, fun g => ?_, fun p hp => ?_, by rw [hmerged], by rwa [hmerged]⟩
  · rw [mem_of_mapM_get? hfragments]
    refine exists_congr fun p => and_congr_right fun hp => ?_
    obtain ⟨hcomposite, hobject, -⟩ := hschema.of_mem_possibleTypes (Schema.mem_of_type? hi) hp
    exact iff_of_eq (congrArg (· = some g) (get?_references_of_isObject hschema hentries
      (Schema.composite?_eq_some.mp hcomposite).1 hobject).symm)
  · obtain ⟨g, -, hg⟩ := exists_of_mapM_eq_some hfragments p hp
    obtain ⟨_, _, hdeclared, -⟩ := declares_of_get? hentries hg
    exact hdeclared.isNode

/-- What is defined of the reference of what is no node type. -/
lemma interfaceScope_of_get? (hschema : schema.Lawful)
    (h : referenceFragments schema declarations = .ok references)
    (hid : ∀ type queries idFragment, Declares declarations type queries idFragment →
      idFragment.Scoped schema)
    (hname : ¬ IsNode declarations name) (hf : Keyed.get? references name = some f) :
    ∃ i, schema.type? name = some i ∧ InterfaceScope schema references i f := by
  obtain ⟨i, fragments, hi, hmem, hnodes, hmerged, hdeclares⟩ :=
    exists_of_get?_references hschema h hname hf
  have hpaths {path : List String} : HasPath f.selections path
      ↔ ∃ p ∈ schema.possibleTypes i, ∃ g, Keyed.get? references p.name = some g
        ∧ HasPath g.selections path := by
    rw [hmerged, hasPath_mergeAll, hasPath_flatMap]
    simp only [hmem]
    constructor
    · rintro ⟨g, ⟨p, hp, hg⟩, hpath⟩
      exact ⟨p, hp, g, hg, hpath⟩
    · rintro ⟨p, hp, g, hg, hpath⟩
      exact ⟨g, ⟨p, hp, hg⟩, hpath⟩
  -- references of node types are in scope
  have hdefined {p : NamedType} (hp : p ∈ schema.possibleTypes i) {g : Fragment}
      (hg : Keyed.get? references p.name = some g) {path : List String}
      (hpath : HasPath g.selections path) : DefinedAlong schema (some p) path := by
    obtain ⟨hcomposite, -⟩ := hschema.of_mem_possibleTypes (Schema.mem_of_type? hi) hp
    obtain ⟨d, hd, htype⟩ := hnodes p hp
    have hscoped := scopedIn_of_declared h hid (htype ▸ List.mem_map_of_mem hd) hg
    rw [hcomposite] at hscoped
    obtain ⟨selections?, hfield⟩ := hpath
    exact hscoped.definedAlong hfield
  have htop : ∀ field ∈ fieldNames f.selections, field ≠ "__typename" →
      ∃ definition ∈ i.fields, definition.name = field := by
    rw [hmerged] at hdeclares ⊢
    intro field hfield
    refine declaresAll_mergeAll.mp hdeclares field (mem_fieldNames_iff_hasPath.mpr ?_)
    exact hasPath_mergeAll.mp (mem_fieldNames_iff_hasPath.mp hfield)
  have hexact : ScopedIn schema (some i) f.selections
      ↔ ∀ p ∈ schema.possibleTypes i, ∀ g, Keyed.get? references p.name = some g →
        ∀ path, HasPath g.selections path → DefinedAlong schema (some i) path := by
    rw [scopedIn_iff_definedAlong fun s hs => bare_of_mem_mergeAll (hmerged ▸ hs)]
    simp only [hpaths]
    constructor
    · exact fun hall p hp g hg path hpath => hall path ⟨p, hp, g, hg, hpath⟩
    · rintro hall path ⟨p, hp, g, hg, hpath⟩
      exact hall p hp g hg path hpath
  refine ⟨i, hi, htop, fun path hpath => ?_, hexact, fun hsame => hexact.mpr ?_⟩
  · obtain ⟨p, hp, g, hg, hpath⟩ := hpaths.mp hpath
    exact ⟨p, hp, hdefined hp hg hpath⟩
  · intro p hp g hg path hpath
    refine (hdefined hp hg hpath).of_same hpath (fun field hfield => ?_) (hsame p hp g hg)
    by_cases hmeta : isMetaName field = true
    · exact .inl hmeta
    · have hmerged : field ∈ fieldNames f.selections := mem_fieldNames_iff_hasPath.mpr
        (hpaths.mpr ⟨p, hp, g, hg, mem_fieldNames_iff_hasPath.mp hfield⟩)
      obtain ⟨definition, hdefinition, rfl⟩ := htop field hmerged (by
        rintro rfl
        exact hmeta (by decide +kernel))
      refine .inr ?_
      have hname : isMetaName definition.name = false := by simpa using hmeta
      rw [Schema.fieldType?, Option.bind_some, Schema.fieldDefinition?_of_not_meta hname,
        Option.isSome_map]
      exact List.find?_isSome.mpr ⟨definition, hdefinition, by simp⟩

end References

/-- **Which fields of references are defined.** If all ID fragments are in scope, then the reference
of a node type is. The fields in the reference of an interface are defined on it at the top, and
deeper down from one of the possible types, though from the interface only if that is so for all
fields that identify a possible type. -/
theorem referenceFragments_scope {schema : Schema} {declarations : List NodeDeclaration}
    {references : References} (hschema : schema.Lawful)
    (h : referenceFragments schema declarations = .ok references)
    (hid : ∀ type queries idFragment, Declares declarations type queries idFragment →
      idFragment.Scoped schema) :
    ∀ name f, Keyed.get? references name = some f →
      (IsNode declarations name → ScopedIn schema (schema.composite? name) f.selections)
        ∧ (¬ IsNode declarations name →
          ∃ i, schema.type? name = some i ∧ InterfaceScope schema references i f) := by
  refine fun name f hf => ⟨?_, fun hname => interfaceScope_of_get? hschema h hid hname hf⟩
  rintro ⟨d, hd, rfl⟩
  exact scopedIn_of_declared h hid (List.mem_map_of_mem hd) hf

/-! ### Pages and posts, books and their authors -/

lemma idFragment_of_declares_sys {type : String} {queries : Document} {idFragment : Fragment}
    (h : Declares [postDeclaration, pageDeclaration] type queries idFragment) :
    idFragment = sysIdFragment "Post" ["id"]
      ∨ idFragment = sysIdFragment "Page" ["id", "locale"] := by
  obtain ⟨index, d, hd, -, hread⟩ := h
  have hmem := List.mem_of_getElem? hd
  simp only [List.mem_cons, List.not_mem_nil, or_false] at hmem
  rcases hmem with rfl | rfl
  · rw [read_postDeclaration] at hread
    cases hread
    exact .inl rfl
  · rw [read_pageDeclaration] at hread
    cases hread
    exact .inr rfl

/-- ID fragments that select fields inside another one are in scope. -/
lemma scoped_of_declares_sys {type : String} {queries : Document} {idFragment : Fragment}
    (h : Declares [postDeclaration, pageDeclaration] type queries idFragment) :
    idFragment.Scoped sysSchema := by
  have hid : (Selection.plain "id").Scoped sysSchema (sysSchema.composite? "Sys") :=
    Selection.scoped_leaf.mpr (.inr rfl)
  have hlocale : (Selection.plain "locale").Scoped sysSchema (sysSchema.composite? "Sys") :=
    Selection.scoped_leaf.mpr (.inr rfl)
  rcases idFragment_of_declares_sys h with rfl | rfl
  · exact ⟨Selection.scoped_composite.mpr (.inr ⟨rfl, hid, trivial⟩), trivial⟩
  · exact ⟨Selection.scoped_composite.mpr (.inr ⟨rfl, hid, hlocale, trivial⟩), trivial⟩

/-- What identifies pages is defined on them, and what identifies pages or posts is on what both
implement, as it is for an interface. -/
theorem referenceFragments_scope_sys : sysSchema.Lawful
    ∧ referenceFragments sysSchema [postDeclaration, pageDeclaration] = .ok sysReferences
    ∧ (∀ type queries idFragment,
      Declares [postDeclaration, pageDeclaration] type queries idFragment →
        idFragment.Scoped sysSchema)
    ∧ ScopedIn sysSchema (sysSchema.composite? "Page")
      (sysReference "Page" ["id", "locale"]).selections
    ∧ ∃ i, sysSchema.type? "Entry" = some i
      ∧ InterfaceScope sysSchema sysReferences i (sysReference "Entry" ["id", "locale"]) := by
  have hlawful : sysSchema.Lawful := by decide
  have hreferences : referenceFragments sysSchema [postDeclaration, pageDeclaration]
      = .ok sysReferences := by
    rw [referenceFragments, typeReferences, read_postDeclaration, typeReferences,
      read_pageDeclaration]
    rfl
  have hentry : ¬ IsNode [postDeclaration, pageDeclaration] "Entry" := by
    simp [IsNode, postDeclaration, pageDeclaration]
  have hscope := referenceFragments_scope hlawful hreferences fun _ _ _ => scoped_of_declares_sys
  exact ⟨hlawful, hreferences, fun _ _ _ => scoped_of_declares_sys,
    (hscope "Page" _ rfl).1 ⟨pageDeclaration, by simp, rfl⟩, (hscope "Entry" _ rfl).2 hentry⟩

/-- A schema in which entries have authors of some kind, and books have persons as authors. -/
def bookSchema : Schema where
  types := [⟨"ID", .scalar⟩,
    ⟨"Author", .interface [] [⟨"id", .named "ID", []⟩]⟩,
    ⟨"Person", .object ["Author"] [⟨"id", .named "ID", []⟩, ⟨"code", .named "ID", []⟩]⟩,
    ⟨"Entry", .interface [] [⟨"author", .named "Author", []⟩]⟩,
    ⟨"Book", .object ["Entry"] [⟨"author", .named "Person", []⟩]⟩,
    ⟨"Query", .object [] [⟨"allBook", .list (.named "Book"), []⟩]⟩]
  directives := []
  query? := some "Query"

/-- Books are identified by the code of their author. -/
def bookDeclaration : NodeDeclaration where
  type := "Book"
  queries := "fragment Id on Book { author { code } }"

/-- The code of an author, inside its field. -/
def authorCode : Selection := .plain "author" (some [.plain "code"])

/-- The reference of books, and that of entries. -/
def bookReferences : References :=
  [("Book", ⟨none, "Book", "Book", [], [.plain "__typename", authorCode]⟩),
    ("Entry", ⟨none, "Entry", "Entry", [], [.plain "__typename", authorCode]⟩)]

lemma read_bookDeclaration (index : Nat) : bookDeclaration.read index
    = .ok ([.fragment ⟨none, "Id", "Book", [], [authorCode]⟩],
        ⟨none, "Id", "Book", [], [authorCode]⟩) := by
  have hscan : Token.scan? bookDeclaration.queries = some [.name "fragment", .name "Id",
      .name "on", .name "Book", .mark '\x7b', .name "author", .mark '\x7b', .name "code",
      .mark '\x7d', .mark '\x7d'] := by
    decide +kernel
  refine NodeDeclaration.read_eq_ok.mpr ⟨by decide, by decide, ?_, rfl, rfl⟩
  exact Document.parse?_of_scan hscan rfl

/-- The code of an author is defined for books but not for entries, whose reference has it. -/
theorem referenceFragments_unscoped : bookSchema.Lawful
    ∧ (∀ type queries idFragment, Declares [bookDeclaration] type queries idFragment →
      idFragment.Scoped bookSchema)
    ∧ referenceFragments bookSchema [bookDeclaration] = .ok bookReferences
    ∧ ¬ ScopedIn bookSchema (bookSchema.composite? "Entry") [.plain "__typename", authorCode] := by
  refine ⟨by decide, fun type queries idFragment h => ?_, ?_, ?_⟩
  · obtain ⟨index, d, hd, -, hread⟩ := h
    obtain rfl := List.mem_singleton.mp (List.mem_of_getElem? hd)
    rw [read_bookDeclaration] at hread
    cases hread
    have hcode : (Selection.plain "code").Scoped bookSchema (bookSchema.composite? "Person") :=
      Selection.scoped_leaf.mpr (.inr rfl)
    exact ⟨Selection.scoped_composite.mpr (.inr ⟨rfl, hcode, trivial⟩), trivial⟩
  · rw [referenceFragments, typeReferences, read_bookDeclaration]
    rfl
  · rintro ⟨-, hauthor, -⟩
    obtain ⟨-, hcode, -⟩ := (Selection.scoped_composite.mp hauthor).resolve_left (by decide +kernel)
    have hnone : bookSchema.fieldType? (bookSchema.insideField? (bookSchema.composite? "Entry")
      "author") "code" = none := by decide +kernel
    rcases Selection.scoped_leaf.mp hcode with hmeta | hfield
    · exact absurd hmeta (by decide +kernel)
    · simp [hnone] at hfield

end RemoteNodes
