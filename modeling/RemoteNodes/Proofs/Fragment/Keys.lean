import RemoteNodes.Proofs.Fragment.Origins
import RemoteNodes.Proofs.Fragment.Usable
import RemoteNodes.Proofs.Node.Declared
import RemoteNodes.Proofs.Node.NodeInterfaces
/-!
Whether the aliases of reserved names give two fields of a default fragment the same key. A field
gets its alias whatever stands next to it.

* `eq_or_mem_of_responseKey_eq`: two fields have one key by default aliases if they are the same, or
  one is reserved and the other named like its alias.
* `NamedType.SelectsField`, `NamedType.AliasesFit`: a type selects no two such fields;
  `keysApart_typeFragment_iff_aliasesFit`, `keysApart_typeFragment_of_not_node`: the keys in its
  fragment once it has aliases.
* `Inlining.keysApart_of_origin`, `Inlining.setUnambiguous_of_origins`: from the sets that inlining
  comes across to those of what it makes, and back.
* `NamedType.KeysFit`: what the keys of a default fragment depend on.
* `defaultFragments_unambiguous_iff`: **a default fragment tells keys apart exactly if the aliases
  fit its node type and each reference that it reaches tells them apart**;
  `defaultFragments_clash`: one that does not.
-/

namespace RemoteNodes

/-! ### Default aliases -/

lemma mem_defaultAliases_of_alias? {name new : String}
    (h : defaultAliases.alias? name = some new) : (name, new) ∈ defaultAliases :=
  Keyed.mem_of_get? (Option.filter_eq_some_iff.mp h).1

/-- A reserved name has its alias, and no alias is reserved. -/
lemma alias?_of_mem_defaultAliases {p : String × String} (hp : p ∈ defaultAliases) :
    defaultAliases.alias? p.1 = some p.2 ∧ defaultAliases.alias? p.2 = none := by
  revert p
  decide

/-- Two fields have one key by default aliases if they are the same, or one is reserved and the
other named like its alias. -/
lemma eq_or_mem_of_responseKey_eq {a b : String}
    (h : Selection.responseKey (defaultAliases.alias? a) a
      = Selection.responseKey (defaultAliases.alias? b) b) :
    a = b ∨ (a, b) ∈ defaultAliases ∨ (b, a) ∈ defaultAliases := by
  have hinj : ∀ p ∈ defaultAliases, ∀ q ∈ defaultAliases, p.2 = q.2 → p.1 = q.1 := by decide
  cases ha : defaultAliases.alias? a with
  | none =>
      cases hb : defaultAliases.alias? b with
      | none =>
          rw [ha, hb] at h
          exact .inl h
      | some new =>
          rw [ha, hb] at h
          obtain rfl : a = new := h
          exact .inr (.inr (mem_defaultAliases_of_alias? hb))
  | some new =>
      have ha' := mem_defaultAliases_of_alias? ha
      cases hb : defaultAliases.alias? b with
      | none =>
          rw [ha, hb] at h
          obtain rfl : new = b := h
          exact .inr (.inl ha')
      | some new' =>
          rw [ha, hb] at h
          exact .inl (hinj _ ha' _ (mem_defaultAliases_of_alias? hb) h)

/-! ### Fields of a type -/

section TypeFragments

variable {schema : Schema} {resolvers : List ArgumentResolver} {types : List String}
  {aliases : Aliases} {t : NamedType} {f : Fragment} {name : String}

/-- The fragment of a type selects the field of a name. -/
def NamedType.SelectsField (schema : Schema) (resolvers : List ArgumentResolver) (t : NamedType)
    (name : String) : Prop :=
  ∃ field ∈ t.fields, field.name = name ∧ Supplied schema resolvers t.name field

/-- No reserved field of a type is selected next to one that is named like its alias. -/
def NamedType.AliasesFit (schema : Schema) (resolvers : List ArgumentResolver) (t : NamedType) :
    Prop :=
  ∀ p ∈ defaultAliases, t.SelectsField schema resolvers p.1 → ¬ t.SelectsField schema resolvers p.2

/-- An object type counts as a node type if it is declared. -/
lemma Schema.isNodeType_of_isObject (ht : t.isObject = true) :
    schema.isNodeType types t = types.contains t.name := by
  have hunion : t.isUnion = false := by
    unfold NamedType.isObject at ht
    unfold NamedType.isUnion
    split at ht
    · rename_i hshape
      rw [hshape]
    · cases ht
  rw [isNodeType, hunion, if_neg Bool.false_ne_true, if_pos ht]

/-- The fields of an object type get aliases if it is a node type. -/
lemma aliasAt_of_isObject (ht : t.isObject = true) (hname : name ≠ "__typename") :
    aliasAt schema types aliases (some t) none name
      = if types.contains t.name then aliases.alias? name else none := by
  rw [aliasAt, ← @Schema.isNodeType_of_isObject schema types t ht]
  cases aliases.alias? name with
  | none => simp
  | some new => simp [hname]

lemma NamedType.SelectsField.ne_typename (hschema : schema.Distinct) (ht : t ∈ schema.types)
    (h : t.SelectsField schema resolvers name) : name ≠ "__typename" := by
  rintro rfl
  obtain ⟨field, hfield, hname, -⟩ := h
  have hmeta := hschema.introspection t ht field hfield
  rw [hname] at hmeta
  exact absurd hmeta (by decide +kernel)

/-- The fragment of an object type tells keys apart, once it has aliases, if no two fields that it
selects have the same. -/
lemma keysApart_typeFragment_iff (hschema : schema.Distinct) (ht : t ∈ schema.types)
    (h : typeFragment schema resolvers t = .ok f) (habstract : t.isAbstract = false) :
    KeysApart (rewriteAll schema (aliasRewriting schema types aliases) (some t) f.selections)
      ↔ ∀ a b, t.SelectsField schema resolvers a → t.SelectsField schema resolvers b →
        Selection.responseKey (aliasAt schema types aliases (some t) none a) a
          = Selection.responseKey (aliasAt schema types aliases (some t) none b) b → a = b := by
  constructor
  · rintro hapart a b ⟨field, hfield, rfl, hsupplied⟩ ⟨field', hfield', rfl, hsupplied'⟩ hkey
    obtain ⟨arguments, -, hs⟩ := exists_field_of_typeFragment h habstract hfield hsupplied
    obtain ⟨arguments', -, hs'⟩ := exists_field_of_typeFragment h habstract hfield' hsupplied'
    have heq := hapart _ (mem_responseFields_aliased.mpr ⟨_, _, _, _, _, hs, rfl⟩)
      _ (mem_responseFields_aliased.mpr ⟨_, _, _, _, _, hs', rfl⟩) hkey
    exact congrArg ResponseField.name heq
  · intro hnames a ha b hb hkey
    obtain ⟨_, _, _, _, _, hs, rfl⟩ := mem_responseFields_aliased.mp ha
    obtain ⟨_, _, _, _, _, hs', rfl⟩ := mem_responseFields_aliased.mp hb
    obtain ⟨field, hfield, hsupplied, arguments, harguments, heq⟩ :=
      (mem_typeFragment_iff hschema ht h habstract).mp hs
    obtain ⟨field', hfield', hsupplied', arguments', harguments', heq'⟩ :=
      (mem_typeFragment_iff hschema ht h habstract).mp hs'
    cases heq
    cases heq'
    have hname := hnames _ _ ⟨field, hfield, rfl, hsupplied⟩ ⟨field', hfield', rfl, hsupplied'⟩ hkey
    obtain rfl := List.inj_on_of_nodup_map (hschema.fields t ht) hfield hfield' hname
    rw [Except.ok.inj (harguments.symm.trans harguments')]

/-- The fragment of a node type tells keys apart, once it has aliases, if its aliases fit. -/
lemma keysApart_typeFragment_iff_aliasesFit (hschema : schema.Distinct) (ht : t ∈ schema.types)
    (h : typeFragment schema resolvers t = .ok f) (hobject : t.isObject = true)
    (hnode : types.contains t.name = true) :
    KeysApart (rewriteAll schema (aliasRewriting schema types defaultAliases) (some t) f.selections)
      ↔ t.AliasesFit schema resolvers := by
  have hkey {name : String} (hname : t.SelectsField schema resolvers name) :
      aliasAt schema types defaultAliases (some t) none name = defaultAliases.alias? name := by
    rw [aliasAt_of_isObject hobject (hname.ne_typename hschema ht), if_pos hnode]
  rw [keysApart_typeFragment_iff hschema ht h (NamedType.not_isAbstract_of_isObject hobject)]
  constructor
  · intro hnames p hp hreserved hnew
    obtain ⟨hsome, hnone⟩ := alias?_of_mem_defaultAliases hp
    have heq := hnames _ _ hreserved hnew (by rw [hkey hreserved, hkey hnew, hsome, hnone]; rfl)
    rw [heq, hnone] at hsome
    cases hsome
  · intro hfit a b ha hb hab
    rw [hkey ha, hkey hb] at hab
    rcases eq_or_mem_of_responseKey_eq hab with rfl | hmem | hmem
    · rfl
    · exact absurd hb (hfit _ hmem ha)
    · exact absurd ha (hfit _ hmem hb)

/-- The fragment of an object type that is no node type tells keys apart, since its fields have no
aliases. -/
lemma keysApart_typeFragment_of_not_node (hschema : schema.Distinct) (ht : t ∈ schema.types)
    (h : typeFragment schema resolvers t = .ok f) (hobject : t.isObject = true)
    (hnode : types.contains t.name = false) :
    KeysApart (rewriteAll schema (aliasRewriting schema types aliases) (some t) f.selections) := by
  rw [keysApart_typeFragment_iff hschema ht h (NamedType.not_isAbstract_of_isObject hobject)]
  intro a b ha hb hab
  rw [aliasAt_of_isObject hobject (ha.ne_typename hschema ht),
    aliasAt_of_isObject hobject (hb.ne_typename hschema ht), hnode] at hab
  exact hab

/-! ### Sets of type fragments -/

/-- A set that does nothing but spread fragments holds no other set. -/
lemma Site.Holds.eq_of_spreads {site site' : Site} (h : site.Holds schema site')
    (hspreads : ∀ s ∈ site.selections, ∃ name directives, s = .spread name directives) :
    site' = site := by
  cases h with
  | refl => rfl
  | field hs | inline hs =>
      obtain ⟨_, _, heq⟩ := hspreads _ hs
      cases heq

/-- The fragment of a type holds its own set, which has nothing but fields if the type is not
abstract, and sets that do nothing but spread fragments. -/
lemma eq_or_spreads_of_holds_typeFragment {start site : Site}
    (h : typeFragment schema resolvers t = .ok f) (hstart : start.selections = f.selections)
    (hholds : start.Holds schema site) :
    (t.isAbstract = false ∧ site = start)
      ∨ ∀ s ∈ site.selections, ∃ name directives, s = .spread name directives := by
  cases habstract : t.isAbstract with
  | true =>
      rw [typeFragment_of_isAbstract habstract] at h
      cases h
      have hspreads : ∀ s ∈ start.selections, ∃ name directives, s = .spread name directives := by
        intro s hs
        rw [hstart] at hs
        obtain ⟨p, -, rfl⟩ := List.mem_map.mp hs
        exact ⟨_, _, rfl⟩
      exact .inr (hholds.eq_of_spreads hspreads ▸ hspreads)
  | false =>
      cases hholds with
      | refl => exact .inl ⟨rfl, rfl⟩
      | field hs hinner =>
          rw [hstart] at hs
          obtain ⟨field, -, arguments, -, heq⟩ := exists_of_mem_typeFragment h habstract hs
          obtain ⟨u, -, hselections⟩ :=
            Option.map_eq_some_iff.mp (Selection.field.inj heq).2.2.2.2.symm
          have hspreads : ∀ s ∈ [Selection.spread u.name []], ∃ name directives,
              s = .spread name directives := fun s hs => ⟨_, _, List.mem_singleton.mp hs⟩
          rw [hselections] at hspreads
          exact .inr (hinner.eq_of_spreads hspreads ▸ hspreads)
      | inline hs =>
          rw [hstart] at hs
          obtain ⟨_, -, _, -, heq⟩ := exists_of_mem_typeFragment h habstract hs
          cases heq

/-- Where fragments are spread and nothing else, at most one field comes to stand. -/
lemma keysApart_of_spreads {site : Site}
    (h : ∀ s ∈ site.selections, ∃ name directives, s = .spread name directives) :
    KeysApart ((site.rewrite schema (discriminating aliases)).rewrite schema
      (aliasRewriting schema types defaultAliases)).selections := by
  have hcut {a : ResponseField} (ha : a ∈ responseFields ((site.rewrite schema
      (discriminating aliases)).rewrite schema
        (aliasRewriting schema types defaultAliases)).selections) :
      a = responseField (aliasAt schema types defaultAliases site.parent?
        (aliases.alias? "__typename") "__typename") "__typename" [] := by
    obtain ⟨alias?, name, arguments, directives, selections?, hs, rfl⟩ :=
      mem_responseFields_aliased.mp ha
    obtain ⟨s', hs', heq⟩ := List.mem_map.mp hs
    rw [rewriteAll_eq_map] at hs'
    obtain ⟨s, hspread, rfl⟩ := List.mem_map.mp hs'
    obtain ⟨_, _, rfl⟩ := h s hspread
    rw [Selection.rewrite] at heq
    cases heq
    rfl
  exact fun a ha b hb _ => (hcut ha).trans (hcut hb).symm

/-- The sets of a type fragment tell keys apart if its own one does. -/
lemma keysApart_of_holds_typeFragment {start site : Site}
    (h : typeFragment schema resolvers t = .ok f) (hstart : start.selections = f.selections)
    (hholds : start.Holds schema site)
    (hown : t.isAbstract = false → KeysApart (rewriteAll schema
      (aliasRewriting schema types defaultAliases) start.parent? f.selections)) :
    KeysApart ((site.rewrite schema (discriminating aliases)).rewrite schema
      (aliasRewriting schema types defaultAliases)).selections := by
  rcases eq_or_spreads_of_holds_typeFragment h hstart hholds with ⟨habstract, rfl⟩ | hspreads
  · have hfields : ∀ name directives, .spread name directives ∉ site.selections := by
      intro name directives hs
      rw [hstart] at hs
      obtain ⟨_, -, _, -, heq⟩ := exists_of_mem_typeFragment h habstract hs
      cases heq
    rw [← hstart] at hown
    exact KeysApart.aliased_mono (fieldsWithin_of_rewrite_discriminating hfields) (hown habstract)
  · exact keysApart_of_spreads hspreads

end TypeFragments

/-! ### References -/

section References

variable {schema : Schema} {declarations : List NodeDeclaration} {references : References}
  {types : List String} {g : Fragment} {name : String}

/-- A fragment with the field that cuts cycles in the place of every spread. -/
def Fragment.discriminated (schema : Schema) (g : Fragment) : Fragment :=
  g.rewrite schema (discriminating defaultAliases)

/-- A fragment in which fields of node types have default aliases. -/
def Fragment.aliased (schema : Schema) (types : List String) (g : Fragment) : Fragment :=
  g.rewrite schema (aliasRewriting schema types defaultAliases)

/-- A fragment that spreads nothing stays as it is. -/
lemma Fragment.discriminated_eq_self (hspreads : spreadNamesIn g.selections = []) :
    g.discriminated schema = g := by
  have hselections : (g.discriminated schema).selections = g.selections :=
    @rewrite_discriminating_of_no_spread schema defaultAliases g.selections .definition
      (schema.composite? g.condition) hspreads
  cases g
  exact congrArg (Fragment.mk _ _ _ _) hselections

/-- A reference stands on the type that it belongs to. -/
lemma condition_of_get? (h : referenceFragments schema declarations = .ok references)
    (hget : Keyed.get? references name = some g) : g.condition = name := by
  obtain ⟨entries, hentries, h⟩ := bind_eq_ok.mp h
  cases h
  rcases Keyed.mem_of_get?_overlay hget with hget | hget
  · obtain ⟨name', -, hf⟩ := List.mem_filterMap.mp hget
    obtain ⟨f', hf', heq⟩ := Option.map_eq_some_iff.mp hf
    cases heq
    obtain ⟨_, _, -, -, -, rfl⟩ := interfaceReference?_eq_some.mp hf'
    rfl
  · obtain ⟨_, _, -, rfl, -⟩ := declares_of_get? hentries hget
    rfl

/-- A fragment with aliases is unambiguous if each set is that it holds where it is opened. -/
lemma Fragment.unambiguous_aliased_iff : (g.aliased schema types).Unambiguous
    ↔ ∀ site, (Inlining.opened schema g.condition g).Holds schema site →
      KeysApart (site.rewrite schema (aliasRewriting schema types defaultAliases)).selections :=
  @setUnambiguous_rewrite_iff schema (aliasRewriting schema types defaultAliases)
    (Inlining.opened schema g.condition g) keepsSites_aliasRewriting leavesSets_aliasRewriting

end References

/-! ### Inlining -/

section Inlining

variable {schema : Schema} {x : Inlining} {types around : List String} {aliases : Aliases}
  {start site : Site} {ss : List Selection}

/-- Where what inlining makes tells keys apart, once it has aliases, the sets do that inlining comes
across. -/
lemma Inlining.keysApart_of_origin (hss : x.inlineAll around start.selections = .ok ss)
    (h : SetUnambiguous
      (rewriteAll schema (aliasRewriting schema types aliases) start.parent? ss))
    (horigin : x.Origin schema around start site) :
    KeysApart (site.rewrite schema (aliasRewriting schema types aliases)).selections := by
  obtain ⟨site', hholds, hparent, _, hinlined⟩ :=
    @exists_inlined schema x around start ⟨start.owner, start.parent?, ss⟩ site rfl hss horigin
  have hiff := @setUnambiguous_rewrite_iff schema (aliasRewriting schema types aliases)
    ⟨start.owner, start.parent?, ss⟩ keepsSites_aliasRewriting leavesSets_aliasRewriting
  have hapart := hiff.mp h site' hholds
  rw [Site.rewrite, hparent] at hapart
  exact KeysApart.aliased_mono (fieldsWithin_of_inlineAll hinlined) hapart

/-- Where the sets that inlining comes across tell keys apart, once the field that cuts cycles
stands for their spreads, what inlining makes does. -/
lemma Inlining.setUnambiguous_of_origins (hss : x.inlineAll around start.selections = .ok ss)
    (h : ∀ site, x.Origin schema around start site →
      KeysApart ((site.rewrite schema (discriminating x.aliases)).rewrite schema
        (aliasRewriting schema types aliases)).selections) :
    SetUnambiguous (rewriteAll schema (aliasRewriting schema types aliases) start.parent? ss) := by
  refine (@setUnambiguous_rewrite_iff schema (aliasRewriting schema types aliases)
    ⟨start.owner, start.parent?, ss⟩ keepsSites_aliasRewriting leavesSets_aliasRewriting).mpr ?_
  intro site' hholds
  obtain ⟨site, horigin, hparent, _, hinlined⟩ :=
    @exists_origin schema x around start ⟨start.owner, start.parent?, ss⟩ site' rfl hss hholds
  rw [Site.rewrite, hparent]
  exact KeysApart.aliased_mono (fieldsWithin_discriminating hinlined) (h site horigin)

end Inlining

/-! ### Default fragments -/

/-- Keys are told apart in what the default fragment of a node type is made of: its own fields, and
each reference that it reaches, as that becomes. -/
def NamedType.KeysFit (schema : Schema) (references : References)
    (resolvers : List ArgumentResolver) (becomes : Fragment → Fragment) (t : NamedType) : Prop :=
  t.AliasesFit schema resolvers ∧ ∀ name g, t.Reaches schema references resolvers name →
    Keyed.get? references name = some g → (becomes g).Unambiguous

section Default

variable {schema : Schema} {declarations : List NodeDeclaration} {resolvers : List ArgumentResolver}
  {x : Inlining} {t : NamedType} {f : Fragment} {ss : List Selection} {name : String}

/-- A name without a reference is not declared. -/
lemma not_declared_of_get? {references : References}
    (h : referenceFragments schema declarations = .ok references)
    (hget : Keyed.get? references name = none) :
    (declarations.map (·.type)).contains name = false := by
  refine Bool.eq_false_iff.mpr fun hdeclared => ?_
  obtain ⟨d, hd, hname⟩ := List.mem_map.mp (List.contains_iff_mem.mp hdeclared)
  obtain ⟨g, hg⟩ := exists_get?_of_isNode h ⟨d, hd, hname⟩
  rw [hg] at hget
  cases hget

/-- Where a default fragment tells keys apart, what it is made of does. -/
lemma Inlining.keysFit_of_setUnambiguous (hschema : schema.Distinct)
    (hx : typeFragments schema resolvers = .ok x.fragments)
    (hreferences : referenceFragments schema declarations = .ok x.references)
    (ht : t ∈ schema.types) (hobject : t.isObject = true)
    (hnode : (declarations.map (·.type)).contains t.name = true)
    (hf : typeFragment schema resolvers t = .ok f) (hss : x.inlineAll [] f.selections = .ok ss)
    (h : SetUnambiguous (rewriteAll schema
      (aliasRewriting schema (declarations.map (·.type)) defaultAliases) (some t) ss)) :
    t.KeysFit schema x.references resolvers (·.aliased schema (declarations.map (·.type))) := by
  have hsets {site : Site}
      (horigin : x.Origin schema [] ⟨.definition, some t, f.selections⟩ site) :=
    keysApart_of_origin hss h horigin
  refine ⟨?_, fun name g hreaches hget => Fragment.unambiguous_aliased_iff.mpr ?_⟩
  · exact (keysApart_typeFragment_iff_aliasesFit hschema ht hf hobject hnode).mp
      (hsets (.inl (.refl _)))
  · intro site hholds
    rw [condition_of_get? hreferences hget] at hholds
    have hopens : x.Opens [] (spreadNamesIn f.selections) name :=
      (opens_iff_reaches hschema hx ht hf hss).mpr hreaches
    exact hsets (.inr ⟨name, g, hopens, by rw [find?, hget], hholds⟩)

/-- A default fragment tells keys apart if what it is made of does, once the field that cuts cycles
stands for spreads. -/
lemma Inlining.setUnambiguous_of_keysFit (hschema : schema.Distinct)
    (hx : typeFragments schema resolvers = .ok x.fragments) (haliases : x.aliases = defaultAliases)
    (hreferences : referenceFragments schema declarations = .ok x.references)
    (ht : t ∈ schema.types) (hobject : t.isObject = true)
    (hnode : (declarations.map (·.type)).contains t.name = true)
    (hf : typeFragment schema resolvers t = .ok f) (hss : x.inlineAll [] f.selections = .ok ss)
    (h : t.KeysFit schema x.references resolvers
      fun g => (g.discriminated schema).aliased schema (declarations.map (·.type))) :
    SetUnambiguous (rewriteAll schema
      (aliasRewriting schema (declarations.map (·.type)) defaultAliases) (some t) ss) := by
  obtain ⟨hfit, hreached⟩ := h
  refine @setUnambiguous_of_origins schema x _ [] _ ⟨.definition, some t, f.selections⟩ ss hss ?_
  rw [haliases]
  rintro site (hholds | ⟨name, g, hopens, hg, hholds⟩)
  · exact keysApart_of_holds_typeFragment hf rfl hholds fun _ =>
      (keysApart_typeFragment_iff_aliasesFit hschema ht hf hobject hnode).mpr hfit
  · rcases of_find? hschema hx hg with hget | ⟨hget, u, hu, htype⟩
    · have hreaches := (opens_iff_reaches hschema hx ht hf hss).mp hopens
      have hapart := Fragment.unambiguous_aliased_iff.mp (hreached name g hreaches hget)
      obtain rfl := condition_of_get? hreferences hget
      exact hapart _ (hholds.rewrite keepsSites_discriminating leavesSets_discriminating)
    · -- a type on the way to references, whose fields have no aliases
      obtain ⟨hfind, hcomposite⟩ := Schema.composite?_eq_some.mp hu
      refine keysApart_of_holds_typeFragment htype rfl hholds fun habstract => ?_
      have hisObject : u.isObject = true := by
        simpa [NamedType.isComposite, habstract] using hcomposite
      have hnot := not_declared_of_get? hreferences hget
      rw [← Schema.name_of_type? hfind] at hnot
      have hparent : (opened schema name g).parent? = some u := hu
      have hmem := Schema.mem_of_type? hfind
      rw [hparent]
      exact keysApart_typeFragment_of_not_node hschema hmem htype hisObject hnot

end Default

/-- **A default fragment has no two fields with the same key side by side exactly if** its node type
selects no reserved field next to one that is named like its alias, and no reference that it reaches
has such fields once it has aliases. Where a reference spreads fragments, the field that cuts cycles
may come to stand for them, so the fragment has no such fields if it has none with that field
there. -/
theorem defaultFragments_unambiguous_iff {schema : Schema} {declarations : List NodeDeclaration}
    {references : References} {resolvers : List ArgumentResolver} {fragments : Keyed Fragment}
    (hschema : schema.Distinct)
    (hreferences : referenceFragments schema declarations = .ok references)
    (h : defaultFragments schema declarations [] resolvers = .ok fragments) :
    ∀ d ∈ declarations, ∃ t f, schema.type? d.type = some t ∧ Keyed.get? fragments d.type = some f
      ∧ (f.Unambiguous → t.KeysFit schema references resolvers
          (·.aliased schema (declarations.map (·.type))))
      ∧ (t.KeysFit schema references resolvers
          (fun g => (g.discriminated schema).aliased schema (declarations.map (·.type))) →
            f.Unambiguous)
      ∧ ((∀ name g, t.Reaches schema references resolvers name →
          Keyed.get? references name = some g → spreadNamesIn g.selections = []) →
            (f.Unambiguous ↔ t.KeysFit schema references resolvers
              (·.aliased schema (declarations.map (·.type))))) := by
  obtain ⟨x, hx, hreferences', haliases, hdefault⟩ := exists_of_defaultFragments h
  obtain rfl := Except.ok.inj (hreferences.symm.trans hreferences')
  replace haliases : x.aliases = defaultAliases := haliases
  intro d hd
  obtain ⟨t, g, inlined, ht, hobject, hg, hinlined, hget⟩ := hdefault d hd
  rw [haliases] at hget
  refine ⟨t, _, ht, hget, ?_⟩
  obtain ⟨ss, hss, rfl⟩ := Fragment.inlined_eq_ok.mp hinlined
  have hmem := Schema.mem_of_type? ht
  have hname := Schema.name_of_type? ht
  have hnode : (declarations.map (·.type)).contains t.name = true := by
    rw [hname]
    exact List.contains_iff_mem.mpr (List.mem_map_of_mem hd)
  have hcomposite : schema.composite? g.condition = some t := by
    rw [(typeFragment_name hg).2, hname]
    exact Schema.composite?_eq_some.mpr ⟨ht, Schema.isComposite_of_isObject hobject⟩
  have hunambiguous : (Fragment.unwrapped (Fragment.rewrite schema
      (aliasRewriting schema (declarations.map (·.type)) defaultAliases)
        { g with selections := ss })).Unambiguous
      ↔ SetUnambiguous (rewriteAll schema
        (aliasRewriting schema (declarations.map (·.type)) defaultAliases) (some t) ss) := by
    rw [← hcomposite]
    exact setUnambiguous_unwrapSet_iff
  have hnecessary := Inlining.keysFit_of_setUnambiguous hschema hx hreferences hmem hobject
    hnode hg hss
  have hsufficient := Inlining.setUnambiguous_of_keysFit hschema hx haliases hreferences hmem
    hobject hnode hg hss
  rw [hunambiguous]
  refine ⟨hnecessary, hsufficient, fun hspreads => ⟨hnecessary, fun hfit => ?_⟩⟩
  refine hsufficient ⟨hfit.1, fun name g hreaches hget => ?_⟩
  dsimp only
  rw [Fragment.discriminated_eq_self (hspreads name g hreaches hget)]
  exact hfit.2 name g hreaches hget

/-- The aliases fit the type with pets and what its default fragment reaches. -/
theorem defaultFragments_unambiguous_iff_pet : petFragment.Unambiguous
    ∧ ownerType.KeysFit petSchema fooReferences [] (·.aliased petSchema ["Foo"]) := by
  obtain ⟨t, f, ht, hf, hnecessary, -⟩ := defaultFragments_unambiguous_iff distinct_petSchema
    referenceFragments_pet defaultFragments_pet fooDeclaration List.mem_cons_self
  obtain rfl := Option.some.inj ht
  obtain rfl := Option.some.inj hf
  have hpet : petFragment.Unambiguous := by decide
  exact ⟨hpet, hnecessary hpet⟩

/-! ### A field that is named like an alias -/

/-- A type that can be listed, which keeps the identifier of another service. -/
def mirroredType : NamedType :=
  ⟨"Foo", .object [] [⟨"id", .named "ID", []⟩, ⟨"remoteId", .named "String", []⟩]⟩

/-- A schema with the type. -/
def mirroredSchema : Schema where
  types := [⟨"ID", .scalar⟩, ⟨"String", .scalar⟩, mirroredType,
    ⟨"Query", .object [] [⟨"allFoo", .list (.named "Foo"), []⟩]⟩]
  directives := []
  query? := some "Query"

/-- The default fragment of the type. -/
def mirroredFragment : Fragment where
  name := "Foo"
  condition := "Foo"
  selections := [.field (some "remoteId") "id" [] [] none, .plain "remoteId"]

lemma distinct_mirroredSchema : mirroredSchema.Distinct where
  types := by decide
  fields := by decide
  arguments := by decide
  introspection := by decide +kernel

lemma referenceFragments_mirrored :
    referenceFragments mirroredSchema [fooDeclaration] = .ok fooReferences := by
  rw [referenceFragments, typeReferences, read_fooDeclaration]
  rfl

/-- A default fragment with two fields side by side that have the same key: the identifier, by its
alias, and the field of that name. -/
theorem defaultFragments_clash : mirroredSchema.Distinct
    ∧ defaultFragments mirroredSchema [fooDeclaration] [] [] = .ok [("Foo", mirroredFragment)]
    ∧ ¬ mirroredFragment.Unambiguous := by
  refine ⟨distinct_mirroredSchema, ?_, by decide⟩
  rw [defaultFragments, referenceFragments_mirrored]
  cbv

end RemoteNodes
