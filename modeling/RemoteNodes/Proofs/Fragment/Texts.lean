import RemoteNodes.Proofs.Document.Success
import RemoteNodes.Proofs.Fragment.Lexical
import RemoteNodes.Proofs.GraphQL.Rereading
import RemoteNodes.Proofs.Selection.Leaf
/-!
The texts of default fragments, read as custom fragments. Printing and reading keep what a default
fragment is for: it is made on its type and selects every leaf that can be asked for as it is.

* `Schema.HasLeaf`: a leaf field of a type that needs no arguments.
* `Fragment.IsDefault`: what default fragments have in common.
* `isDefault_of_get?_defaultFragments`: default fragments are like that.
* `readsDefaults_of_readFragments`: **the texts of default fragments are read as one fragment for
  each type, with all of its leaves**.
-/

namespace RemoteNodes

/-- A type has a leaf field of this name that needs no arguments. -/
def Schema.HasLeaf (schema : Schema) (type leaf : String) : Prop :=
  ∃ t field, schema.type? type = some t ∧ field ∈ t.fields ∧ field.name = leaf
    ∧ field.IsLeaf schema ∧ ∀ input ∈ field.arguments, input.isRequired = false

/-- What the default fragments of a type are like: named after the type and made on it, written with
lexical tokens, and with nothing but fields, among them all leaves that need no arguments. -/
structure Fragment.IsDefault (schema : Schema) (type : String) (f : Fragment) : Prop where
  description : f.description? = none
  directives : f.directives = []
  name : f.name = type
  condition : f.condition = type
  lexical : Lexical f.tokens
  fields : ∀ s ∈ f.selections, s.isField = true
  leaves : ∀ leaf, schema.HasLeaf type leaf → SelectsLeaf leaf f.selections

/-! ### The steps to a default fragment -/

section Steps

variable {schema : Schema} {types : List String} {aliases : Aliases} {type leaf : String}
  {f : Fragment} {ss ss' : List Selection} {s : Selection}

lemma Inlining.isField_of_inlineAll {x : Inlining} {around : List String}
    (h : x.inlineAll around ss = .ok ss') (hss : ∀ s ∈ ss, s.isField = true) :
    ∀ s ∈ ss', s.isField = true := by
  intro s' hs'
  rw [inlineAll_eq_mapM] at h
  obtain ⟨s, hs, h⟩ := (mem_of_mapM h).2 s' hs'
  have hs := hss s hs
  cases s with
  | field alias? name as ds ss? =>
      cases ss? with
      | none =>
          rw [inline] at h
          cases h
          rfl
      | some ss =>
          obtain ⟨ss', -, rfl⟩ := exists_of_inline_field h
          rfl
  | spread _ _ | inline _ _ _ => cases hs

lemma Inlining.selectsLeaf_inlineAll {x : Inlining} {around : List String}
    (h : x.inlineAll around ss = .ok ss') (hss : SelectsLeaf leaf ss) : SelectsLeaf leaf ss' := by
  obtain ⟨alias?, hmem⟩ := hss
  obtain ⟨s', hs', hmem⟩ := exists_mem_inlineAll h hmem
  rw [inline] at hs'
  cases hs'
  exact ⟨alias?, hmem⟩

/-- Aliases that are names leave a default fragment as it should be. -/
lemma Fragment.IsDefault.addAliases (h : f.IsDefault schema type) (haliases : aliases.Named) :
    (f.rewrite schema (aliasRewriting schema types aliases)).IsDefault schema type := by
  obtain ⟨hname, hcondition, hdirectives, hselections⟩ := lexical_fragment.mp h.lexical
  have hmem {s : Selection}
      (hs : s ∈ (f.rewrite schema (aliasRewriting schema types aliases)).selections) :
      ∃ s' ∈ f.selections,
        s'.rewrite schema (aliasRewriting schema types aliases) (schema.composite? f.condition)
          = s := by
    change s ∈ rewriteAll _ _ _ _ at hs
    rw [rewriteAll_eq_map] at hs
    exact List.mem_map.mp hs
  refine ⟨h.description, h.directives, h.name, h.condition, ?_, fun s hs => ?_,
    fun leaf hleaf => ?_⟩
  · refine lexical_fragment.mpr ⟨hname, hcondition, hdirectives, fun s hs => ?_⟩
    obtain ⟨s', hs', rfl⟩ := hmem hs
    exact lexical_rewrite_aliasRewriting haliases (hselections s' hs')
  · obtain ⟨s', hs', rfl⟩ := hmem hs
    have hfield := h.fields s' hs'
    cases s' with
    | field alias? name as ds ss? =>
        obtain ⟨alias?', -, heq⟩ :=
          exists_alias_rewrite schema types aliases _ alias? name as ds ss?
        rw [heq]
        rfl
    | spread _ _ | inline _ _ _ => cases hfield
  · exact (h.leaves leaf hleaf).rewrite keepsLeaves_aliasRewriting

lemma isField_unwrap (h : s.isField = true) : s.unwrap.isField = true := by
  cases s with
  | field alias? name as ds ss? => cases ss? <;> rfl
  | spread _ _ | inline _ _ _ => cases h

/-- A set of fields is no wrapping, so unwrapping goes on inside each of them only. -/
lemma unwrapSet_of_isField (hss : ∀ s ∈ ss, s.isField = true) :
    unwrapSet ss = ss.map Selection.unwrap := by
  rw [unwrapSet, Execution.unwrapEach_eq_map]
  unfold unwrapOuter
  split
  · rename_i condition? ds inner heq
    obtain ⟨s, hs, hinline⟩ := List.mem_map.mp (heq ▸ List.mem_cons_self :
      Selection.inline condition? ds inner ∈ ss.map Selection.unwrap)
    have hfield := isField_unwrap (hss s hs)
    rw [hinline] at hfield
    cases hfield
  · rfl

lemma Fragment.IsDefault.unwrapped (h : f.IsDefault schema type) :
    f.unwrapped.IsDefault schema type := by
  obtain ⟨hname, hcondition, hdirectives, hselections⟩ := lexical_fragment.mp h.lexical
  have heq : f.unwrapped.selections = f.selections.map Selection.unwrap :=
    unwrapSet_of_isField h.fields
  refine ⟨h.description, h.directives, h.name, h.condition, ?_, fun s hs => ?_,
    fun leaf hleaf => ?_⟩
  · exact lexical_fragment.mpr ⟨hname, hcondition, hdirectives, lexical_unwrapSet hselections⟩
  · rw [heq] at hs
    obtain ⟨s', hs', rfl⟩ := List.mem_map.mp hs
    exact isField_unwrap (h.fields s' hs')
  · obtain ⟨alias?, hmem⟩ := h.leaves leaf hleaf
    rw [heq]
    exact ⟨alias?, List.mem_map.mpr ⟨_, hmem, rfl⟩⟩

end Steps

/-! ### Default fragments -/

section Defaults

variable {schema : Schema} {declarations : List NodeDeclaration} {aliases : Aliases}
  {fragments : Keyed Fragment} {type : String}

/-- The fragment of an object type has all leaves of the type that need no arguments. -/
lemma Schema.HasLeaf.selectsLeaf {t : NamedType} {f : Fragment} {leaf : String}
    (h : schema.HasLeaf type leaf) (ht : schema.type? type = some t) (hobject : t.isObject = true)
    (hf : typeFragment schema [] t = .ok f) : SelectsLeaf leaf f.selections := by
  obtain ⟨t', field, ht', hfield, rfl, hleaf, harguments⟩ := h
  obtain rfl := Option.some.inj (ht.symm.trans ht')
  have hsupplied : Supplied schema [] t.name field := by
    intro input hinput hrequired
    rw [harguments input hinput] at hrequired
    cases hrequired
  obtain ⟨arguments, hresolve, hmem⟩ := exists_field_of_typeFragment hf
    (NamedType.not_isAbstract_of_isObject hobject) hfield hsupplied
  rw [resolveArguments_nil] at hresolve
  cases hresolve
  rw [hleaf.composite?, Option.map_none] at hmem
  exact ⟨none, hmem⟩

/-- The fragment of an object type, inlined, is what a default fragment should be. -/
lemma Inlining.isDefault_inlined {x : Inlining} {t : NamedType} {f inlined : Fragment}
    (hschema : schema.Named) (haliases : x.aliases.Named)
    (hfragments : typeFragments schema [] = .ok x.fragments)
    (hreferences : referenceFragments schema declarations = .ok x.references)
    (ht : schema.type? type = some t) (hobject : t.isObject = true)
    (hf : typeFragment schema [] t = .ok f) (h : f.inlined x = .ok inlined) :
    inlined.IsDefault schema type := by
  obtain ⟨ss, hss, rfl⟩ := Fragment.inlined_eq_ok.mp h
  have habstract := NamedType.not_isAbstract_of_isObject hobject
  have htype := Schema.mem_of_type? ht
  have hname := Schema.name_of_type? ht
  have hlexical :=
    lexical_inlineAll_typeFragment hschema haliases hfragments hreferences htype hf hss
  have hfields : ∀ s ∈ ss, s.isField = true := by
    refine isField_of_inlineAll hss fun s hs => ?_
    obtain ⟨field, -, arguments, -, rfl⟩ := exists_of_mem_typeFragment hf habstract hs
    rfl
  have hleaves (leaf : String) (hleaf : schema.HasLeaf type leaf) : SelectsLeaf leaf ss :=
    selectsLeaf_inlineAll hss (hleaf.selectsLeaf ht hobject hf)
  obtain ⟨selections?, -, rfl⟩ := typeFragment_of_not_isAbstract hf habstract
  have hwritten := hschema.types t htype
  exact ⟨rfl, rfl, hname, hname,
    lexical_fragment.mpr ⟨hwritten, hwritten, lexical_nil, hlexical⟩, hfields, hleaves⟩

/-- Without supplied arguments, the default fragments of a schema with names are of lexical tokens
and have all leaves. -/
theorem isDefault_of_get?_defaultFragments (hschema : schema.Named)
    (haliases : Aliases.Named (Keyed.overlay defaultAliases aliases))
    (h : defaultFragments schema declarations aliases [] = .ok fragments) {d : NodeDeclaration}
    (hd : d ∈ declarations) :
    ∃ f, Keyed.get? fragments d.type = some f ∧ f.IsDefault schema d.type := by
  obtain ⟨x, htyped, hreferences, hx, hdefault⟩ := exists_of_defaultFragments h
  obtain ⟨t, g, inlined, ht, hobject, hg, hinlined, hget⟩ := hdefault d hd
  rw [← hx] at haliases
  have hdefault :=
    Inlining.isDefault_inlined hschema haliases htyped hreferences ht hobject hg hinlined
  exact ⟨_, hget, (hdefault.addAliases haliases).unwrapped⟩

/-- Whatever default fragment there is belongs to a declaration. -/
lemma exists_declaration_of_mem {resolvers : List ArgumentResolver} {f : Fragment}
    (h : defaultFragments schema declarations aliases resolvers = .ok fragments)
    (hf : (type, f) ∈ fragments) : ∃ d ∈ declarations, d.type = type
      ∧ Keyed.get? fragments d.type = some f := by
  obtain ⟨typed, -, h⟩ := bind_eq_ok.mp h
  obtain ⟨references, -, h⟩ := bind_eq_ok.mp h
  obtain ⟨entries, hentries, h⟩ := bind_eq_ok.mp h
  cases h
  have hget := (Keyed.mem_iff_get? (Keyed.nodup_ofPairs entries)).mp hf
  obtain ⟨type', htype', h⟩ := (mem_of_mapM hentries).2 _ (Keyed.mem_of_get?_ofPairs hget)
  obtain ⟨g, -, h⟩ := bind_eq_ok.mp h
  cases h
  obtain ⟨d, hd, rfl⟩ := List.mem_map.mp htype'
  exact ⟨d, hd, rfl, hget⟩

end Defaults

/-! ### Texts -/

/-- What custom fragments are like that are read from the texts of default fragments: each is named
after a declared type and made on it, and has all leaves of the type that need no arguments; and
there is one for every declared type. -/
structure ReadsDefaults (schema : Schema) (declarations : List NodeDeclaration)
    (customs : List Fragment) : Prop where
  condition : ∀ f ∈ customs, f.condition = f.name
  declared : ∀ f ∈ customs, ∃ d ∈ declarations, d.type = f.name
  leaves : ∀ f ∈ customs, ∀ leaf, schema.HasLeaf f.name leaf → SelectsLeaf leaf f.selections
  exists_of_declared : ∀ d ∈ declarations, ∃ f ∈ customs, f.name = d.type

/-- The text of a default fragment is read as one fragment on its type, with all leaves that need no
arguments. -/
lemma exists_fragment_of_text {schema : Schema} {declarations : List NodeDeclaration}
    {aliases : Aliases} {fragments : Keyed Fragment} {document : Document} (hschema : schema.Named)
    (haliases : Aliases.Named (Keyed.overlay defaultAliases aliases))
    (h : defaultFragments schema declarations aliases [] = .ok fragments)
    {d : NodeDeclaration} (hd : d ∈ declarations) {f : Fragment}
    (hf : Keyed.get? fragments d.type = some f) (hparse : Document.parse? f.text = some document) :
    ∃ g, document = [.fragment g] ∧ g.name = d.type ∧ g.condition = d.type
      ∧ ∀ leaf, schema.HasLeaf d.type leaf → SelectsLeaf leaf g.selections := by
  obtain ⟨f', hf', hdefault⟩ := isDefault_of_get?_defaultFragments hschema haliases h hd
  obtain rfl := Option.some.inj (hf.symm.trans hf')
  obtain ⟨g, hg, hname, hcondition, hleaves⟩ := Fragment.exists_of_parse?_text
    hdefault.description hdefault.directives hdefault.lexical hdefault.fields hparse
  refine ⟨g, hg, hname.trans hdefault.name, hcondition.trans hdefault.condition, ?_⟩
  intro leaf hleaf
  obtain ⟨alias?, hmem⟩ := hdefault.leaves leaf hleaf
  exact ⟨alias?, hleaves alias? leaf hmem⟩

/-- The texts of default fragments are read as custom fragments with all leaves that need no
arguments. -/
theorem readsDefaults_of_readFragments {schema : Schema} {declarations : List NodeDeclaration}
    {aliases : Aliases} {texts : Keyed String} {customs : List Fragment} (hschema : schema.Named)
    (haliases : Aliases.Named (Keyed.overlay defaultAliases aliases))
    (h : defaultFragmentTexts schema declarations aliases [] = .ok texts)
    (hread : readFragments (texts.map (·.2)) = .ok customs) :
    ReadsDefaults schema declarations customs := by
  obtain ⟨fragments, hfragments, h⟩ := bind_eq_ok.mp h
  cases h
  have hcustom {g : Fragment} (hg : g ∈ customs) : ∃ d ∈ declarations, g.name = d.type
      ∧ g.condition = d.type
      ∧ ∀ leaf, schema.HasLeaf d.type leaf → SelectsLeaf leaf g.selections := by
    obtain ⟨text, htext, document, hparse, hg⟩ := exists_source_of_mem_readFragments hread hg
    rw [List.map_map] at htext
    obtain ⟨⟨type, f⟩, hf, rfl⟩ := List.mem_map.mp htext
    obtain ⟨d, hd, -, hget⟩ := exists_declaration_of_mem hfragments hf
    obtain ⟨g', rfl, hg'⟩ := exists_fragment_of_text hschema haliases hfragments hd hget hparse
    obtain rfl := List.mem_singleton.mp hg
    exact ⟨d, hd, hg'⟩
  refine ⟨fun f hf => ?_, fun f hf => ?_, fun f hf => ?_, fun d hd => ?_⟩
  · obtain ⟨d, -, hname, hcondition, -⟩ := hcustom hf
    rw [hname, hcondition]
  · obtain ⟨d, hd, hname, -⟩ := hcustom hf
    exact ⟨d, hd, hname.symm⟩
  · obtain ⟨d, -, hname, -, hleaves⟩ := hcustom hf
    rw [hname]
    exact hleaves
  · obtain ⟨f, hf, -⟩ := isDefault_of_get?_defaultFragments hschema haliases hfragments hd
    have htext : f.text ∈ (fragments.map fun p => (p.1, p.2.text)).map (·.2) := by
      rw [List.map_map]
      exact List.mem_map_of_mem (f := fun p => p.2.text) (Keyed.mem_of_get? hf)
    obtain ⟨document, hparse, hdocument⟩ := exists_document_of_mem_sources hread htext
    obtain ⟨g, rfl, hname, -⟩ := exists_fragment_of_text hschema haliases hfragments hd hf hparse
    exact ⟨g, hdocument g List.mem_cons_self, hname⟩

end RemoteNodes
