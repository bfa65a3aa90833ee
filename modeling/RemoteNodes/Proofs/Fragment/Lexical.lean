import RemoteNodes.Proofs.Fragment.Complete
import RemoteNodes.Proofs.GraphQL.Reading
import RemoteNodes.Proofs.Schema.Lawful
/-!
Default fragments are made of lexical tokens: the names come from the schema, the aliases and the
queries, and what inlining makes of selections has no others.

* `Schema.Named`: a schema whose types and fields have names; `Aliases.Named`: aliases that are
  names.
* `lexical_typeFragments`, `lexical_referenceFragments`: the fragments that inlining starts from.
* `Inlining.lexical_inlineAll`, `lexical_rewrite_aliasRewriting`, `lexical_unwrapSet`: **the steps
  to a default fragment keep selections lexical**.
-/

namespace RemoteNodes

open Token (IsName)

/-- The types of a schema and their fields have names. -/
structure Schema.Named (schema : Schema) : Prop where
  types : ∀ t ∈ schema.types, IsName t.name
  fields : ∀ t ∈ schema.types, ∀ f ∈ t.fields, IsName f.name

/-- All aliases are names. -/
def Aliases.Named (aliases : Aliases) : Prop :=
  ∀ name new, aliases.alias? name = some new → IsName new

/-- The default aliases are names. -/
lemma named_overlay_defaultAliases {aliases : Aliases}
    (h : ∀ p ∈ aliases, p.2 = "" ∨ IsName p.2) :
    Aliases.Named (Keyed.overlay defaultAliases aliases) := by
  intro name new hnew
  obtain ⟨hget, hne⟩ := Option.filter_eq_some_iff.mp hnew
  rcases Keyed.mem_of_get?_overlay hget with hmem | hget
  · exact (h _ hmem).resolve_left (by simpa using hne)
  · have hall : ∀ p ∈ defaultAliases, IsName p.2 := by decide
    exact hall _ (Keyed.mem_of_get? hget)

/-! ### Selections -/

section Selections

variable {alias? : Option String} {name : String} {as : List Argument} {ds : List Directive}
  {ss : List Selection} {ss? : Option (List Selection)}

lemma lexical_field : Lexical (Selection.field alias? name as ds ss?).tokens
    ↔ Lexical (headTokens alias? name as ds)
      ∧ ∀ ss, ss? = some ss → ∀ s ∈ ss, Lexical s.tokens := by
  cases ss? with
  | none => simp [Selection.tokens]
  | some ss =>
      rw [Selection.tokens, lexical_append, lexical_wrapped_braces, selectionTokens_eq_flatMap,
        lexical_flatMap]
      simp

lemma lexical_inline {condition? : Option String} :
    Lexical (Selection.inline condition? ds ss).tokens
      ↔ Lexical (inlineTokens condition? ds) ∧ ∀ s ∈ ss, Lexical s.tokens := by
  rw [Selection.tokens, lexical_append, lexical_wrapped_braces, selectionTokens_eq_flatMap,
    lexical_flatMap]

lemma lexical_leaf :
    Lexical (Selection.field alias? name as ds none).tokens ↔ Lexical (headTokens alias? name as ds)
    := by
  simp [lexical_field]

lemma lexical_spread {fragment : String} :
    Lexical (Selection.spread fragment ds).tokens
      ↔ IsName fragment ∧ Lexical (directiveTokens ds) := by
  rw [Selection.tokens, lexical_cons, lexical_cons]
  simp [Token.IsLexical]

lemma lexical_fragment {f : Fragment} : Lexical f.tokens
    ↔ IsName f.name ∧ IsName f.condition ∧ Lexical (directiveTokens f.directives)
      ∧ ∀ s ∈ f.selections, Lexical s.tokens := by
  rw [Fragment.tokens, lexical_cons, lexical_cons, lexical_cons, lexical_cons, lexical_append,
    lexical_setTokens]
  have hwords : IsName "fragment" ∧ IsName "on" := by decide
  simp [Token.IsLexical, hwords]

/-- A field with nothing but its name, and possibly an alias. -/
lemma lexical_plainHead (halias : ∀ key, alias? = some key → IsName key) (hname : IsName name) :
    Lexical (headTokens alias? name [] []) :=
  lexical_headTokens.mpr ⟨halias, hname, lexical_nil, lexical_nil⟩

lemma lexical_plainHead_none (hname : IsName name) : Lexical (headTokens none name [] []) :=
  lexical_plainHead (by simp) hname

lemma isName_typename : IsName "__typename" := by decide

end Selections

/-! ### Type fragments -/

section TypeFragments

variable {schema : Schema} {t : NamedType} {f : Fragment}

/-- Without values no arguments are given. -/
lemma resolveArguments_nil (type : String) (field : OutputField) :
    resolveArguments schema [] type field = .ok [] := by
  have hnone : ∀ inputs, argumentsFrom schema [] inputs = .ok [] := by
    intro inputs
    induction inputs with
    | nil => rfl
    | cons input inputs ih =>
        rw [argumentsFrom]
        exact ih
  exact hnone field.arguments

/-- Type fragments that no values are supplied for are made of names of the schema. -/
lemma lexical_typeFragment (hschema : schema.Named) (ht : t ∈ schema.types)
    (h : typeFragment schema [] t = .ok f) : ∀ s ∈ f.selections, Lexical s.tokens := by
  cases habstract : t.isAbstract with
  | true =>
      rw [typeFragment_of_isAbstract habstract] at h
      cases h
      intro s hs
      obtain ⟨p, hp, rfl⟩ := List.mem_map.mp hs
      exact lexical_spread.mpr
        ⟨hschema.types p (Schema.mem_types_of_mem_possibleTypes hp), lexical_nil⟩
  | false =>
      intro s hs
      obtain ⟨field, hfield, arguments, harguments, rfl⟩ :=
        exists_of_mem_typeFragment h habstract hs
      rw [resolveArguments_nil] at harguments
      cases harguments
      have hname := hschema.fields t ht field hfield
      refine lexical_field.mpr ⟨lexical_plainHead_none hname, ?_⟩
      intro ss hss s hs
      obtain ⟨u, hu, rfl⟩ := Option.map_eq_some_iff.mp hss
      rw [List.mem_singleton.mp hs]
      have hu := Schema.mem_of_type? (Schema.composite?_eq_some.mp hu).1
      exact lexical_spread.mpr ⟨hschema.types u hu, lexical_nil⟩

lemma lexical_typeFragments (hschema : schema.Named) {fragments : Keyed Fragment}
    (h : typeFragments schema [] = .ok fragments) {name : String}
    (hf : Keyed.get? fragments name = some f) : ∀ s ∈ f.selections, Lexical s.tokens := by
  obtain ⟨made, hmade, h⟩ := bind_eq_ok.mp h
  cases h
  obtain ⟨t, ht, htype⟩ := exists_type_of_get? (mapM_eq_ok.mp hmade) hf
  have ht := (List.mem_filter.mp (List.mem_of_find?_eq_some ht)).1
  exact lexical_typeFragment hschema ht htype

end TypeFragments

/-! ### Reference fragments -/

section Merging

variable {merged ss : List Selection} {s x : Selection} {name : String}

lemma lexical_of_selectionsOf (hmerged : ∀ x ∈ merged, Lexical x.tokens)
    (h : selectionsOf name merged = some ss) : ∀ s ∈ ss, Lexical s.tokens := by
  obtain ⟨_, _, _, hmem⟩ := mem_of_selectionsOf h
  exact (lexical_field.mp (hmerged _ hmem)).2 ss rfl

lemma lexical_of_mem_putField {ss? : Option (List Selection)}
    (hmerged : ∀ x ∈ merged, Lexical x.tokens) (hnew : Lexical (Selection.plain name ss?).tokens)
    (hx : x ∈ putField name ss? merged) : Lexical x.tokens := by
  rcases mem_putField hx with rfl | hx
  · exact hnew
  · exact hmerged x hx

lemma lexical_of_mem_mergeInto (hmerged : ∀ x ∈ merged, Lexical x.tokens) (hs : Lexical s.tokens)
    (hx : x ∈ mergeInto merged s) : Lexical x.tokens := by
  induction s using Selection.induct generalizing merged x with
  | leaf alias? name as ds =>
      rw [mergeInto] at hx
      have hname := (lexical_headTokens.mp (lexical_leaf.mp hs)).2.1
      refine lexical_of_mem_putField hmerged (lexical_field.mpr ?_) hx
      exact ⟨lexical_plainHead_none hname, fun ss hss => lexical_of_selectionsOf hmerged hss⟩
  | composite alias? name as ds ss ih =>
      rw [mergeInto] at hx
      obtain ⟨hhead, hss⟩ := lexical_field.mp hs
      have hname := (lexical_headTokens.mp hhead).2.1
      have hbefore : ∀ x ∈ (selectionsOf name merged).getD [], Lexical x.tokens := by
        cases h : selectionsOf name merged with
        | none => simp
        | some before => exact lexical_of_selectionsOf hmerged h
      refine lexical_of_mem_putField hmerged (lexical_field.mpr ?_) hx
      refine ⟨lexical_plainHead_none hname, fun ss' hss' y hy => ?_⟩
      cases hss'
      exact mergeAll_induct (motive := fun merged => ∀ x ∈ merged, Lexical x.tokens) hbefore
        (fun s hs _ h _ hx => ih s hs h (hss ss rfl s hs) hx) y hy
  | spread fragment ds => exact hmerged x hx
  | inline condition? ds ss ih => exact hmerged x hx

lemma lexical_of_mem_mergeAll (hss : ∀ s ∈ ss, Lexical s.tokens) (hx : x ∈ mergeAll [] ss) :
    Lexical x.tokens :=
  mergeAll_induct (motive := fun merged => ∀ x ∈ merged, Lexical x.tokens) (by simp)
    (fun s hs _ h _ hx => lexical_of_mem_mergeInto h (hss s hs) hx) x hx

end Merging

section References

variable {schema : Schema} {declarations : List NodeDeclaration} {references : References}

/-- ID fragments are read from tokens, so they are made of lexical ones. -/
lemma Declares.lexical {type : String} {queries : Document} {idFragment : Fragment}
    (h : Declares declarations type queries idFragment) :
    ∀ s ∈ idFragment.selections, Lexical s.tokens := by
  obtain ⟨index, d, -, -, hread⟩ := h
  obtain ⟨-, -, hparse, hfragments, -⟩ := NodeDeclaration.read_eq_ok.mp hread
  have hlexical := Document.lexical_of_parse? hparse idFragment (by simp [hfragments])
  exact (lexical_fragment.mp hlexical).2.2.2

/-- References are merged from ID fragments. -/
lemma lexical_referenceFragments (h : referenceFragments schema declarations = .ok references)
    {name : String} {f : Fragment} (hf : Keyed.get? references name = some f) :
    ∀ s ∈ f.selections, Lexical s.tokens := by
  obtain ⟨entries, hentries, h⟩ := bind_eq_ok.mp h
  cases h
  have htype {name : String} {f : Fragment}
      (hf : Keyed.get? (Keyed.ofPairs (entries.map fun p => (p.1.name, p.2))) name = some f) :
      ∀ s ∈ f.selections, Lexical s.tokens := by
    obtain ⟨⟨t, f'⟩, hentry, heq⟩ := List.mem_map.mp (Keyed.mem_of_get?_ofPairs hf)
    cases heq
    obtain ⟨offset, d, queries, idFragment, hd, hread, -, rfl⟩ :=
      exists_of_mem_typeReferences hentries hentry
    rw [Nat.zero_add] at hread
    intro s hs
    rcases mem_reference hs with rfl | hs
    · exact lexical_leaf.mpr (lexical_plainHead_none isName_typename)
    · exact Declares.lexical ⟨offset, d, hd, rfl, hread⟩ s hs
  rcases Keyed.mem_of_get?_overlay hf with hf | hf
  · obtain ⟨name', -, hf⟩ := List.mem_filterMap.mp hf
    obtain ⟨f', hf', heq⟩ := Option.map_eq_some_iff.mp hf
    cases heq
    obtain ⟨-, fragments, -, -, hreferences, hselections⟩ := exists_of_interfaceReference? hf'
    intro s hs
    rw [hselections] at hs
    refine lexical_of_mem_mergeAll (fun s hs => ?_) hs
    obtain ⟨g, hg, hs⟩ := List.mem_flatMap.mp hs
    obtain ⟨type, hget⟩ := hreferences g hg
    exact htype hget s hs
  · exact htype hf

end References

/-! ### Inlining, aliases and unwrapping -/

namespace Inlining

variable {x : Inlining} {around : List String} {ss ss' : List Selection}

/-- Inlining puts in nothing but fragments that are found and aliased type names. -/
lemma lexical_inlineAll (haliases : x.aliases.Named)
    (hfound : ∀ name f, x.find? name = some f → ∀ s ∈ f.selections, Lexical s.tokens)
    (h : x.inlineAll around ss = .ok ss') (hss : ∀ s ∈ ss, Lexical s.tokens) :
    ∀ s ∈ ss', Lexical s.tokens := by
  induction around, ss using Inlining.inlineAll.induct x
      (fun around s => ∀ s', x.inline around s = .ok s' → Lexical s.tokens → Lexical s'.tokens)
      generalizing ss' with
  | case1 around alias? name as ds s' h hs =>
      rw [inline] at h
      cases h
      exact hs
  | case2 around alias? name as ds ss ih s' h hs =>
      obtain ⟨ss', hinner, rfl⟩ := exists_of_inline_field h
      obtain ⟨hhead, hss⟩ := lexical_field.mp hs
      refine lexical_field.mpr ⟨hhead, fun _ heq => ?_⟩
      cases heq
      exact ih hinner (hss ss rfl)
  | case3 around condition? ds ss ih s' h hs =>
      obtain ⟨ss', hinner, rfl⟩ := exists_of_inline_inline h
      obtain ⟨hhead, hss⟩ := lexical_inline.mp hs
      exact lexical_inline.mpr ⟨hhead, ih hinner hss⟩
  | case4 around name ds hopen s' h hs =>
      rw [inline_of_mem (by simpa using hopen)] at h
      cases h
      exact lexical_leaf.mpr (lexical_plainHead (haliases _) isName_typename)
  | case5 around name ds hopen hf s' h hs =>
      rw [inline_of_find?_eq_none (by simpa using hopen) hf] at h
      cases h
  | case6 around name ds hopen f hf ih s' h hs =>
      obtain ⟨g, ss', hg, hinner, rfl⟩ := exists_opened h (by simpa using hopen)
      obtain rfl := Option.some.inj (hf.symm.trans hg)
      refine lexical_inline.mpr ⟨lexical_inlineTokens.mpr ⟨?_, lexical_nil⟩, ?_⟩
      · rintro _ ⟨⟩
        exact (lexical_spread.mp hs).1
      · exact ih hinner (hfound name f hf)
  | case7 =>
      rw [inlineAll] at h
      cases h
      simp
  | case8 around s ss fault hfault =>
      rw [inlineAll, hfault] at h
      cases h
  | case9 around s ss _ _ ih ihrest =>
      obtain ⟨s', rest, hs', hrest, rfl⟩ := exists_of_inlineAll_cons h
      obtain ⟨hs, hss⟩ := List.forall_mem_cons.mp hss
      exact List.forall_mem_cons.mpr ⟨ih s' hs' hs, ihrest hrest hss⟩

/-- What inlining makes of the type fragments of a schema with names is lexical. -/
lemma lexical_inlineAll_typeFragment {schema : Schema} {declarations : List NodeDeclaration}
    {t : NamedType} {f : Fragment} (hschema : schema.Named) (haliases : x.aliases.Named)
    (hfragments : typeFragments schema [] = .ok x.fragments)
    (hreferences : referenceFragments schema declarations = .ok x.references)
    (ht : t ∈ schema.types) (hf : typeFragment schema [] t = .ok f)
    (h : x.inlineAll around f.selections = .ok ss') : ∀ s ∈ ss', Lexical s.tokens := by
  refine lexical_inlineAll haliases (fun name g hg => ?_) h (lexical_typeFragment hschema ht hf)
  rw [find?] at hg
  split at hg
  · rename_i hreference
    cases hg
    exact lexical_referenceFragments hreferences hreference
  · exact lexical_typeFragments hschema hfragments hg

end Inlining

section Aliases

variable {schema : Schema} {types : List String} {aliases : Aliases} {parent? : Option NamedType}
  {s : Selection}

/-- Aliases that are names keep selections lexical. -/
lemma lexical_rewrite_aliasRewriting (haliases : aliases.Named) (hs : Lexical s.tokens) :
    Lexical (s.rewrite schema (aliasRewriting schema types aliases) parent?).tokens := by
  have hhead {alias? alias?' : Option String} {name : String} {as : List Argument}
      {ds : List Directive} (halias : alias?' = alias? ∨ alias?' = aliases.alias? name)
      (h : Lexical (headTokens alias? name as ds)) : Lexical (headTokens alias?' name as ds) := by
    obtain ⟨hkey, hrest⟩ := lexical_headTokens.mp h
    refine lexical_headTokens.mpr ⟨?_, hrest⟩
    rcases halias with rfl | rfl
    · exact hkey
    · exact haliases name
  induction s using Selection.induct generalizing parent? with
  | leaf alias? name as ds =>
      obtain ⟨alias?', halias, heq⟩ :=
        exists_alias_rewrite schema types aliases parent? alias? name as ds none
      rw [heq]
      exact lexical_leaf.mpr (hhead halias (lexical_leaf.mp hs))
  | composite alias? name as ds ss ih =>
      obtain ⟨alias?', halias, heq⟩ :=
        exists_alias_rewrite schema types aliases parent? alias? name as ds (some ss)
      rw [heq]
      obtain ⟨h, hss⟩ := lexical_field.mp hs
      refine lexical_field.mpr ⟨hhead halias h, fun _ heq s hs => ?_⟩
      cases heq
      change s ∈ rewriteAll _ _ _ ss at hs
      rw [rewriteAll_eq_map] at hs
      obtain ⟨s, hmem, rfl⟩ := List.mem_map.mp hs
      exact ih s hmem (hss ss rfl s hmem)
  | spread fragment ds =>
      rw [Selection.rewrite]
      exact hs
  | inline condition? ds ss ih =>
      rw [Selection.rewrite]
      obtain ⟨h, hss⟩ := lexical_inline.mp hs
      refine lexical_inline.mpr ⟨h, fun s hs => ?_⟩
      change s ∈ rewriteAll _ _ _ ss at hs
      rw [rewriteAll_eq_map] at hs
      obtain ⟨s, hmem, rfl⟩ := List.mem_map.mp hs
      exact ih s hmem (hss s hmem)

end Aliases

section Unwrapping

variable {ss : List Selection} {s : Selection}

lemma lexical_unwrapOuter (h : ∀ s ∈ ss, Lexical s.tokens) :
    ∀ s ∈ unwrapOuter ss, Lexical s.tokens := by
  unfold unwrapOuter
  split
  · split
    · exact (lexical_inline.mp (h _ List.mem_cons_self)).2
    · exact h
  · exact h

lemma lexical_unwrap (hs : Lexical s.tokens) : Lexical s.unwrap.tokens := by
  induction s using Selection.induct with
  | leaf alias? name as ds => exact hs
  | composite alias? name as ds ss ih =>
      obtain ⟨h, hss⟩ := lexical_field.mp hs
      refine lexical_field.mpr ⟨h, fun _ heq => ?_⟩
      cases heq
      refine lexical_unwrapOuter fun s hs => ?_
      rw [Execution.unwrapEach_eq_map] at hs
      obtain ⟨s, hmem, rfl⟩ := List.mem_map.mp hs
      exact ih s hmem (hss ss rfl s hmem)
  | spread fragment ds => exact hs
  | inline condition? ds ss ih =>
      obtain ⟨h, hss⟩ := lexical_inline.mp hs
      refine lexical_inline.mpr ⟨h, lexical_unwrapOuter fun s hs => ?_⟩
      rw [Execution.unwrapEach_eq_map] at hs
      obtain ⟨s, hmem, rfl⟩ := List.mem_map.mp hs
      exact ih s hmem (hss s hmem)

lemma lexical_unwrapSet (h : ∀ s ∈ ss, Lexical s.tokens) :
    ∀ s ∈ unwrapSet ss, Lexical s.tokens := by
  refine lexical_unwrapOuter fun s hs => ?_
  rw [Execution.unwrapEach_eq_map] at hs
  obtain ⟨s, hmem, rfl⟩ := List.mem_map.mp hs
  exact lexical_unwrap (h s hmem)

end Unwrapping

end RemoteNodes
