import Mathlib.Tactic
import RemoteNodes.Proofs.Document.Identity
import RemoteNodes.Proofs.Document.Permuted
import RemoteNodes.Proofs.Node.FieldUnion
/-!
Which interfaces have references beside the node types, and what these references are.

* `ValidDeclarations`: declarations of distinct object types that can be read.
* `IsNodeInterface`: all possible types of an interface are node types, and it has the fields that
  identify them; `exists_interfaceReference?_iff`: **these interfaces get a reference**.
* `Unites`: a fragment has the tree of field names that is the union of the trees of references.
* `referenceFragments_exact`: **references belong to the node types, in the order of declaration,
  and to the node interfaces, in the order of first mention, with the union of what belongs to the
  possible types**.
-/

namespace RemoteNodes

variable {schema : Schema} {declarations : List NodeDeclaration} {references : References}
  {entries : List (NamedType × Fragment)} {name : String} {f g : Fragment} {i t : NamedType}

/-- Declarations of distinct types, which are object types, each with queries that hold one ID
fragment, which is made on the type. -/
structure ValidDeclarations (schema : Schema) (declarations : List NodeDeclaration) : Prop where
  distinct : (declarations.map (·.type)).Nodup
  reads : ∀ (index : Nat) (d : NodeDeclaration), declarations[index]? = some d →
    ∃ queries idFragment, d.read index = .ok (queries, idFragment)
  isObject : ∀ d ∈ declarations, schema.IsObject d.type

/-- Whatever types implement is an interface. -/
def Schema.ImplementsInterfaces (schema : Schema) : Prop :=
  ∀ t ∈ schema.types, ∀ name ∈ t.interfaces, ∀ i, schema.type? name = some i →
    ∃ interfaces fields, i.shape = .interface interfaces fields

/-- All possible types are node types, and each field that their ID fragments select at the top is
one of the interface, apart from type names. -/
def IsNodeInterface (schema : Schema) (declarations : List NodeDeclaration) (name : String) :
    Prop :=
  ∃ i, schema.type? name = some i ∧ ∀ p ∈ schema.possibleTypes i, IsNode declarations p.name
    ∧ ∀ queries idFragment, Declares declarations p.name queries idFragment →
      ∀ field ∈ fieldNames idFragment.selections, field ≠ "__typename" →
        ∃ definition ∈ i.fields, definition.name = field

/-- A fragment is made of plain fields, without repetition at any level and with the type name at
first. A field is found in it along names if one is found in the reference of a type, and is a leaf
if all of those are leaves. -/
structure Unites (references : References) (types : List NamedType) (f : Fragment) : Prop where
  bare : ∀ s ∈ f.selections, s.Bare
  distinct : DistinctNames f.selections
  typename : ∃ rest, f.selections = .plain "__typename" :: rest
  paths : ∀ path, HasPath f.selections path
    ↔ ∃ t ∈ types, ∃ g, Keyed.get? references t.name = some g ∧ HasPath g.selections path
  leaves : ∀ path, FieldAt f.selections path none ↔ HasPath f.selections path
    ∧ ∀ t ∈ types, ∀ g, Keyed.get? references t.name = some g →
      ∀ selections?, FieldAt g.selections path selections? → selections? = none

/-! ### Node types -/

lemma typeReferences_of_valid (hvalid : ValidDeclarations schema declarations) :
    ∃ entries, typeReferences schema 0 declarations = .ok entries := by
  simp only [typeReferences_eq_ok_iff]
  refine exists_mapM fun d hd => ?_
  obtain ⟨index, hindex⟩ := List.mem_iff_getElem?.mp hd
  obtain ⟨queries, idFragment, hread⟩ := hvalid.reads index d hindex
  obtain ⟨t, ht, hobject⟩ := hvalid.isObject d hd
  refine ⟨(t, idFragment.reference d.type),
    bind_eq_ok.mpr ⟨_, NodeDeclaration.read_eq_ok_iff.mp hread, ?_⟩⟩
  simp only [ht, Option.filter_some, hobject, if_true]
  rfl

/-- Each declaration gives the type of its name. -/
lemma map_fst_typeReferences {index : Nat} {ds : List NodeDeclaration}
    (h : typeReferences schema index ds = .ok entries) :
    entries.map (·.1) = ds.filterMap fun d => schema.type? d.type := by
  rw [typeReferences_eq_ok_iff, mapM_eq_ok] at h
  induction h with
  | nil => rfl
  | @cons d entry ds entries hentry _ ih =>
      obtain ⟨⟨_, _⟩, -, hentry⟩ := bind_eq_ok.mp hentry
      cases ht : (schema.type? d.type).filter (·.isObject) with
      | none =>
          simp only [ht] at hentry
          cases hentry
      | some t =>
          simp only [ht] at hentry
          cases hentry
          have htype : schema.type? d.type = some t := (Option.filter_eq_some_iff.mp ht).1
          simp only [List.map_cons, List.filterMap_cons, htype, ih]

lemma keys_declaredReferences (hdistinct : (declarations.map (·.type)).Nodup)
    (h : typeReferences schema 0 declarations = .ok entries) :
    Keyed.keys (declaredReferences entries) = declarations.map (·.type) := by
  have hkeys := keys_entries h
  rw [declaredReferences, Keyed.ofPairs_of_nodup (hkeys ▸ hdistinct), hkeys]

/-! ### Node interfaces -/

lemma mem_fieldNames_iff_hasPath {ss : List Selection} :
    name ∈ fieldNames ss ↔ HasPath ss [name] := by
  rw [mem_fieldNames, HasPath]
  simp only [fieldAt_singleton]
  constructor
  · rintro ⟨_, _, _, selections?, h⟩
    exact ⟨selections?, _, _, _, h⟩
  · rintro ⟨selections?, _, _, _, h⟩
    exact ⟨_, _, _, selections?, h⟩

/-- Apart from the type name, a reference selects at the top what the ID fragment does. -/
lemma mem_fieldNames_reference {idFragment : Fragment} {type : String} (h : name ≠ "__typename") :
    name ∈ fieldNames (idFragment.reference type).selections
      ↔ name ∈ fieldNames idFragment.selections := by
  have hkept {alias? : Option String} {arguments : List Argument} {directives : List Directive}
      {selections? : Option (List Selection)} :
      (!(Selection.field alias? name arguments directives selections?).isTypename) = true := by
    simpa [Selection.isTypename] using h
  rw [Fragment.reference, Selection.plain, fieldNames_cons_field, List.mem_cons, or_iff_right h,
    mem_fieldNames, mem_fieldNames]
  simp only [List.mem_filter, hkept, and_true]

/-- An interface declares what is merged if it has a field of each name, apart from type names. -/
lemma declaresAll_mergeAll {parts : List Selection} :
    declaresAll i (mergeAll [] parts) = true ↔ ∀ field ∈ fieldNames parts, field ≠ "__typename" →
      ∃ definition ∈ i.fields, definition.name = field := by
  have hfield (field : String) : (i.field? field).isSome = true
      ↔ ∃ definition ∈ i.fields, definition.name = field := by
    simp [NamedType.field?, List.find?_isSome]
  rw [declaresAll, List.all_eq_true]
  constructor
  · intro h field hin hne
    obtain ⟨_, _, _, _, hmem⟩ := mem_fieldNames.mp (mem_fieldNames_iff_hasPath.mpr
      (hasPath_mergeAll.mpr (mem_fieldNames_iff_hasPath.mp hin)))
    simpa [hne, hfield] using h _ hmem
  · intro h s hs
    have hdeclares (field : String) (hin : field ∈ fieldNames (mergeAll [] parts)) :
        ((i.field? field).isSome || field == "__typename") = true := by
      by_cases hne : field = "__typename"
      · simp [hne]
      · rw [Bool.or_eq_true, hfield]
        exact .inl (h field (mem_fieldNames_iff_hasPath.mpr
          (hasPath_mergeAll.mp (mem_fieldNames_iff_hasPath.mp hin))) hne)
    cases bare_of_mem_mergeAll hs with
    | leaf name | composite _ => exact hdeclares _ (mem_fieldNames.mpr ⟨_, _, _, _, hs⟩)

/-- The reference of an interface is merged of what stands under its possible types, if all of them
have something and the interface declares what is merged. -/
lemma interfaceReference?_eq_some : interfaceReference? schema references name = some f
    ↔ ∃ i fragments, schema.type? name = some i
      ∧ (schema.possibleTypes i).mapM (fun t => Keyed.get? references t.name) = some fragments
      ∧ declaresAll i (mergeAll [] (fragments.flatMap (·.selections))) = true
      ∧ f = { name, condition := name,
              selections := mergeAll [] (fragments.flatMap (·.selections)) } := by
  simp only [interfaceReference?, Option.bind_eq_bind, Option.bind_eq_some_iff,
    Option.ite_none_right_eq_some, Option.some.injEq, exists_and_left, eq_comm (b := f)]

lemma exists_mapM_eq_some {α β : Type} {look : α → Option β} {xs : List α}
    (hall : ∀ x ∈ xs, ∃ y, look x = some y) : ∃ ys, xs.mapM look = some ys := by
  induction xs with
  | nil => exact ⟨[], rfl⟩
  | cons x xs ih =>
      obtain ⟨⟨y, hy⟩, hrest⟩ := List.forall_mem_cons.mp hall
      obtain ⟨ys, hys⟩ := ih hrest
      exact ⟨y :: ys, by simp [hy, hys]⟩

/-- What is looked up for types is what stands under their names. -/
lemma mem_of_mapM_get? {types : List NamedType} {fragments : List Fragment}
    (h : types.mapM (fun t => Keyed.get? references t.name) = some fragments) :
    g ∈ fragments ↔ ∃ t ∈ types, Keyed.get? references t.name = some g := by
  refine ⟨(length_and_mem_of_mapM h).2 g, ?_⟩
  rintro ⟨t, ht, hg⟩
  obtain ⟨g', hg', heq⟩ := exists_of_mapM_eq_some h t ht
  rwa [Option.some.inj (hg.symm.trans heq)]

lemma fieldAt_flatMap {fragments : List Fragment} {path : List String}
    {selections? : Option (List Selection)} :
    FieldAt (fragments.flatMap (·.selections)) path selections?
      ↔ ∃ g ∈ fragments, FieldAt g.selections path selections? := by
  rw [fieldAt_iff_exists_mem]
  constructor
  · rintro ⟨s, hs, h⟩
    obtain ⟨g, hg, hs⟩ := List.mem_flatMap.mp hs
    exact ⟨g, hg, fieldAt_iff_exists_mem.mpr ⟨s, hs, h⟩⟩
  · rintro ⟨g, hg, h⟩
    obtain ⟨s, hs, h⟩ := fieldAt_iff_exists_mem.mp h
    exact ⟨s, List.mem_flatMap.mpr ⟨g, hg, hs⟩, h⟩

lemma hasPath_flatMap {fragments : List Fragment} {path : List String} :
    HasPath (fragments.flatMap (·.selections)) path
      ↔ ∃ g ∈ fragments, HasPath g.selections path := by
  simp only [HasPath, fieldAt_flatMap]
  constructor
  · rintro ⟨selections?, g, hg, h⟩
    exact ⟨g, hg, selections?, h⟩
  · rintro ⟨g, hg, selections?, h⟩
    exact ⟨selections?, g, hg, h⟩

/-- **The interfaces that get a reference** out of those of the node types are the node
interfaces. -/
theorem exists_interfaceReference?_iff (hdistinct : (declarations.map (·.type)).Nodup)
    (h : typeReferences schema 0 declarations = .ok entries) :
    (∃ f, interfaceReference? schema (declaredReferences entries) name = some f)
      ↔ IsNodeInterface schema declarations name := by
  simp only [interfaceReference?_eq_some, declaresAll_mergeAll]
  constructor
  · rintro ⟨_, i, fragments, hi, hfragments, hall, -⟩
    refine ⟨i, hi, fun p hp => ?_⟩
    obtain ⟨g, hg, hget⟩ := exists_of_mapM_eq_some hfragments p hp
    obtain ⟨queries, idFragment, hdeclares, rfl, -⟩ := declares_of_get? h hget
    refine ⟨hdeclares.isNode, fun queries' idFragment' hdeclares' field hfield hne => ?_⟩
    obtain ⟨-, rfl⟩ := hdeclares.unique hdistinct hdeclares'
    refine hall field (mem_fieldNames_iff_hasPath.mpr (hasPath_flatMap.mpr ⟨_, hg, ?_⟩)) hne
    exact mem_fieldNames_iff_hasPath.mp ((mem_fieldNames_reference hne).mpr hfield)
  · rintro ⟨i, hi, hall⟩
    obtain ⟨fragments, hfragments⟩ := exists_mapM_eq_some fun p hp =>
      (exists_get?_declaredReferences_iff h).mpr (hall p hp).1
    refine ⟨_, i, fragments, hi, hfragments, fun field hfield hne => ?_, rfl⟩
    obtain ⟨g, hg, hpath⟩ := hasPath_flatMap.mp (mem_fieldNames_iff_hasPath.mp hfield)
    obtain ⟨p, hp, hget⟩ := (mem_of_mapM_get? hfragments).mp hg
    obtain ⟨queries, idFragment, hdeclares, rfl, -⟩ := declares_of_get? h hget
    exact (hall p hp).2 queries idFragment hdeclares field
      ((mem_fieldNames_reference hne).mp (mem_fieldNames_iff_hasPath.mpr hpath)) hne

/-! ### The union of references -/

/-- What is merged of the references of types unites them. -/
lemma unites_of_mem {types : List NamedType} {fragments : List Fragment}
    (hmem : ∀ g, g ∈ fragments ↔ ∃ t ∈ types, Keyed.get? references t.name = some g)
    (hreference : ∀ g ∈ fragments, ∃ idFragment type, g = Fragment.reference idFragment type)
    (hne : fragments ≠ []) (hf : f.selections = mergeAll [] (fragments.flatMap (·.selections))) :
    Unites references types f := by
  have hexists (P : Fragment → Prop) : (∃ g ∈ fragments, P g)
      ↔ ∃ t ∈ types, ∃ g, Keyed.get? references t.name = some g ∧ P g := by
    simp only [hmem]
    constructor
    · rintro ⟨g, ⟨t, ht, hg⟩, h⟩
      exact ⟨t, ht, g, hg, h⟩
    · rintro ⟨t, ht, g, hg, h⟩
      exact ⟨g, ⟨t, ht, hg⟩, h⟩
  have hpaths (path : List String) : HasPath f.selections path
      ↔ ∃ g ∈ fragments, HasPath g.selections path := by
    rw [hf, hasPath_mergeAll, hasPath_flatMap]
  refine ⟨fun s hs => bare_of_mem_mergeAll (hf ▸ hs), hf ▸ DistinctNames.nil.mergeAll _, ?_,
    fun path => (hpaths path).trans (hexists _), fun path => ?_⟩
  · obtain ⟨first, rest, rfl⟩ := List.exists_cons_of_ne_nil hne
    obtain ⟨idFragment, type, rfl⟩ := hreference first List.mem_cons_self
    have hplain : TypenamesPlain
        (((idFragment.reference type) :: rest).flatMap (·.selections)) := by
      intro s hs htypename
      obtain ⟨g, hg, hs⟩ := List.mem_flatMap.mp hs
      obtain ⟨idFragment, type, rfl⟩ := hreference g hg
      exact typenamesPlain_reference idFragment type s hs htypename
    rw [List.flatMap_cons, Fragment.reference, List.cons_append] at hf hplain
    obtain ⟨others, hothers⟩ := exists_mergeAll_eq_typename_cons (List.forall_mem_cons.mp hplain).2
    exact ⟨others, hf.trans hothers⟩
  · rw [hpaths, hf, fieldAt_none_mergeAll, hasPath_flatMap]
    refine and_congr_right fun _ => ?_
    simp only [fieldAt_flatMap, hexists]
    constructor
    · intro h t ht g hg selections? hfield
      exact h selections? ⟨t, ht, g, hg, hfield⟩
    · rintro h selections? ⟨t, ht, g, hg, hfield⟩
      exact h t ht g hg selections? hfield

/-! ### All references -/

lemma nodup_eraseDups (names : List String) : names.eraseDups.Nodup := by
  induction hlength : names.length using Nat.strong_induction_on generalizing names with
  | _ n ih =>
      cases names with
      | nil => exact List.nodup_nil
      | cons name names =>
          rw [List.eraseDups_cons]
          refine List.nodup_cons.mpr ⟨fun hmem => ?_, ih _ ?_ _ rfl⟩
          · simpa using List.mem_eraseDups.mp hmem
          · exact hlength ▸ Nat.lt_succ_of_le (List.length_filter_le _ _)

/-- The keys of what is looked up by names are the names that give something. -/
lemma keys_filterMap {α : Type} (names : List String) (look : String → Option α) :
    Keyed.keys (names.filterMap fun name => (look name).map (name, ·))
      = names.filter fun name => (look name).isSome := by
  induction names with
  | nil => rfl
  | cons name names ih =>
      rw [Keyed.keys] at ih ⊢
      cases h : look name <;> simp [h, ih]

/-- An interface is mentioned by an object type of the schema. -/
lemma ValidDeclarations.exists_of_mem_mentioned (hvalid : ValidDeclarations schema declarations)
    (h : name ∈ mentionedInterfaces (declarations.filterMap fun d => schema.type? d.type)) :
    ∃ t ∈ schema.types, t.isObject = true ∧ name ∈ t.interfaces := by
  obtain ⟨t, ht, himplements⟩ := mem_mentionedInterfaces.mp h
  obtain ⟨d, hd, htype⟩ := List.mem_filterMap.mp ht
  obtain ⟨o, ho, hobject⟩ := hvalid.isObject d hd
  obtain rfl := Option.some.inj (ho.symm.trans htype)
  exact ⟨o, Schema.mem_of_type? ho, hobject, himplements⟩

/-- What implements an interface is a possible type of it. -/
lemma Schema.ImplementsInterfaces.mem_possibleTypes (hschema : schema.ImplementsInterfaces)
    (ht : t ∈ schema.types) (hobject : t.isObject = true) (himplements : name ∈ t.interfaces)
    (hi : schema.type? name = some i) : t ∈ schema.possibleTypes i := by
  obtain ⟨_, _, hshape⟩ := hschema t ht name himplements i hi
  obtain rfl := Schema.name_of_type? hi
  simp only [Schema.possibleTypes, hshape]
  refine List.mem_flatMap.mpr ⟨t, ht, ?_⟩
  rw [if_pos hobject, List.mem_replicate]
  exact ⟨(List.count_pos_iff.mpr himplements).ne', rfl⟩

open Classical in
/-- **All references.** Declarations that are valid give references: the node types have one each,
in the order of declaration, and after them come those interfaces that are node interfaces, in the
order in which the node types mention them. The reference of an interface unites those of its
possible types. -/
theorem referenceFragments_exact (schema : Schema) (declarations : List NodeDeclaration)
    (hschema : schema.ImplementsInterfaces) (hvalid : ValidDeclarations schema declarations) :
    ∃ references, referenceFragments schema declarations = .ok references
      ∧ Keyed.keys references = declarations.map (·.type)
        ++ (mentionedInterfaces (declarations.filterMap fun d => schema.type? d.type)).filter
          (fun name => decide (IsNodeInterface schema declarations name))
      ∧ ∀ name ∈ mentionedInterfaces (declarations.filterMap fun d => schema.type? d.type),
        IsNodeInterface schema declarations name →
          ∃ i f, schema.type? name = some i ∧ Keyed.get? references name = some f
            ∧ Unites references (schema.possibleTypes i) f := by
  obtain ⟨entries, hentries⟩ := typeReferences_of_valid hvalid
  have hqualify (name : String) :
      (interfaceReference? schema (declaredReferences entries) name).isSome = true
        ↔ IsNodeInterface schema declarations name := by
    rw [Option.isSome_iff_exists, exists_interfaceReference?_iff hvalid.distinct hentries]
  refine ⟨_, bind_eq_ok.mpr ⟨entries, hentries, rfl⟩, ?_⟩
  rw [← declaredReferences, map_fst_typeReferences hentries]
  set names := mentionedInterfaces (declarations.filterMap fun d => schema.type? d.type) with hnames
  -- what node types mention is no node type, so it comes after them and hides none of them
  have hapart (name : String) (hname : name ∈ names) : ¬ IsNode declarations name := by
    rintro ⟨d, hd, rfl⟩
    obtain ⟨o, ho, hobject⟩ := hvalid.isObject d hd
    obtain ⟨t, ht, -, himplements⟩ := hvalid.exists_of_mem_mentioned hname
    obtain ⟨_, _, hshape⟩ := hschema t ht d.type himplements o ho
    simp [NamedType.isObject, hshape] at hobject
  have hkeys := keys_filterMap names (interfaceReference? schema (declaredReferences entries))
  constructor
  · rw [Keyed.overlay_of_disjoint, Keyed.keys, List.map_append, ← Keyed.keys, ← Keyed.keys, hkeys,
      keys_declaredReferences hvalid.distinct hentries]
    · congr 1
      exact List.filter_congr fun name _ => by rw [Bool.eq_iff_iff, hqualify, decide_eq_true_iff]
    · exact hkeys ▸ (nodup_eraseDups _).filter _
    · intro name hname
      rw [hkeys] at hname
      rw [keys_declaredReferences hvalid.distinct hentries]
      exact fun hmem => hapart name (List.mem_filter.mp hname).1 (List.mem_map.mp hmem)
  · intro name hname hqualifies
    obtain ⟨f, hf⟩ := Option.isSome_iff_exists.mp ((hqualify name).mpr hqualifies)
    obtain ⟨i, fragments, hi, hfragments, -, hmerged⟩ := interfaceReference?_eq_some.mp hf
    have hselections : f.selections = mergeAll [] (fragments.flatMap (·.selections)) := by
      rw [hmerged]
    refine ⟨i, f, hi, ?_, unites_of_mem (fun g => ?_) ?_ ?_ hselections⟩
    · rw [Keyed.get?_overlay_filterMap, if_pos hname, hf, Option.some_or]
    · rw [mem_of_mapM_get? hfragments]
      refine exists_congr fun p => and_congr_right fun hp => ?_
      obtain ⟨i', hi', hall⟩ := hqualifies
      obtain rfl := Option.some.inj (hi.symm.trans hi')
      rw [Keyed.get?_overlay_filterMap, if_neg fun hmem => hapart p.name hmem (hall p hp).1]
    · intro g hg
      obtain ⟨p, -, hget⟩ := (mem_of_mapM_get? hfragments).mp hg
      obtain ⟨_, idFragment, -, rfl, -⟩ := declares_of_get? hentries hget
      exact ⟨idFragment, p.name, rfl⟩
    · obtain ⟨t, ht, hobject, himplements⟩ := hvalid.exists_of_mem_mentioned hname
      obtain ⟨g, hg, -⟩ := exists_of_mapM_eq_some hfragments t
        (hschema.mem_possibleTypes ht hobject himplements hi)
      exact List.ne_nil_of_mem hg

/-- Node types with an interface that has the field which identifies them, and with another one that
also has other types under it. -/
def sysSchema : Schema where
  types := [⟨"ID", .scalar⟩, ⟨"String", .scalar⟩,
    ⟨"Sys", .object [] [⟨"id", .named "ID", []⟩, ⟨"locale", .named "String", []⟩]⟩,
    ⟨"Entry", .interface [] [⟨"sys", .named "Sys", []⟩]⟩,
    ⟨"Named", .interface [] [⟨"sys", .named "Sys", []⟩]⟩,
    ⟨"Post", .object ["Entry", "Named"] [⟨"sys", .named "Sys", []⟩]⟩,
    ⟨"Page", .object ["Entry", "Named"] [⟨"sys", .named "Sys", []⟩]⟩,
    ⟨"Tag", .object ["Named"] [⟨"sys", .named "Sys", []⟩]⟩,
    ⟨"Query", .object [] [⟨"all", .list (.named "Entry"), []⟩]⟩]
  directives := []
  query? := some "Query"

/-- A declaration of a type by a field inside another one. -/
def postDeclaration : NodeDeclaration where
  type := "Post"
  queries := "fragment Id on Post { sys { id } }"

/-- A declaration of a type by two such fields. -/
def pageDeclaration : NodeDeclaration where
  type := "Page"
  queries := "fragment Id on Page { sys { id locale } }"

/-- The reference of a type with identifying fields inside another one. -/
def sysReference (type : String) (fields : List String) : Fragment where
  name := type
  condition := type
  selections := [.plain "__typename", .plain "sys" (some (fields.map (Selection.plain ·)))]

/-- An ID fragment with fields inside another one. -/
def sysIdFragment (type : String) (fields : List String) : Fragment where
  name := "Id"
  condition := type
  selections := [.plain "sys" (some (fields.map (Selection.plain ·)))]

lemma read_postDeclaration (index : Nat) : postDeclaration.read index
    = .ok ([.fragment (sysIdFragment "Post" ["id"])], sysIdFragment "Post" ["id"]) := by
  have hscan : Token.scan? postDeclaration.queries = some [.name "fragment", .name "Id",
      .name "on", .name "Post", .mark '\x7b', .name "sys", .mark '\x7b', .name "id", .mark '\x7d',
      .mark '\x7d'] := by
    decide +kernel
  refine NodeDeclaration.read_eq_ok.mpr ⟨by decide, by decide, ?_, rfl, rfl⟩
  exact Document.parse?_of_scan hscan rfl

lemma read_pageDeclaration (index : Nat) : pageDeclaration.read index
    = .ok ([.fragment (sysIdFragment "Page" ["id", "locale"])],
        sysIdFragment "Page" ["id", "locale"]) := by
  have hscan : Token.scan? pageDeclaration.queries = some [.name "fragment", .name "Id",
      .name "on", .name "Page", .mark '\x7b', .name "sys", .mark '\x7b', .name "id",
      .name "locale", .mark '\x7d', .mark '\x7d'] := by
    decide +kernel
  refine NodeDeclaration.read_eq_ok.mpr ⟨by decide, by decide, ?_, rfl, rfl⟩
  exact Document.parse?_of_scan hscan rfl

/-- The references of the two types and of the interface above both. -/
def sysReferences : References :=
  [("Post", sysReference "Post" ["id"]), ("Page", sysReference "Page" ["id", "locale"]),
    ("Entry", sysReference "Entry" ["id", "locale"])]

/-- One interface qualifies, and its reference has the fields of both types; the other one stands
also for a type that is no node type. -/
theorem referenceFragments_exact_sys :
    sysSchema.ImplementsInterfaces
      ∧ ValidDeclarations sysSchema [postDeclaration, pageDeclaration]
      ∧ referenceFragments sysSchema [postDeclaration, pageDeclaration] = .ok sysReferences
      ∧ IsNodeInterface sysSchema [postDeclaration, pageDeclaration] "Entry"
      ∧ ¬ IsNodeInterface sysSchema [postDeclaration, pageDeclaration] "Named"
      ∧ ∃ i, sysSchema.type? "Entry" = some i ∧ Unites sysReferences (sysSchema.possibleTypes i)
        (sysReference "Entry" ["id", "locale"]) := by
  have hschema : sysSchema.ImplementsInterfaces := by
    have hnames : ∀ t ∈ sysSchema.types, ∀ name ∈ t.interfaces,
        name = "Entry" ∨ name = "Named" := by decide
    intro t ht name hname i hi
    rcases hnames t ht name hname with rfl | rfl <;>
    · cases hi
      exact ⟨_, _, rfl⟩
  have hvalid : ValidDeclarations sysSchema [postDeclaration, pageDeclaration] := by
    refine ⟨by decide, fun index d hd => ?_, ?_⟩
    · match index, hd with
      | 0, rfl => exact ⟨_, _, read_postDeclaration 0⟩
      | 1, rfl => exact ⟨_, _, read_pageDeclaration 1⟩
    · exact List.forall_mem_cons.mpr
        ⟨⟨_, rfl, rfl⟩, List.forall_mem_singleton.mpr ⟨_, rfl, rfl⟩⟩
  have hcomputed : referenceFragments sysSchema [postDeclaration, pageDeclaration]
      = .ok sysReferences := by
    rw [referenceFragments, typeReferences, read_postDeclaration, typeReferences,
      read_pageDeclaration]
    rfl
  obtain ⟨references, h, hkeys, hunites⟩ := referenceFragments_exact sysSchema
    [postDeclaration, pageDeclaration] hschema hvalid
  obtain rfl := Except.ok.inj (hcomputed.symm.trans h)
  have hqualifies {name : String}
      (hname : name ∈ mentionedInterfaces ([postDeclaration, pageDeclaration].filterMap
        fun d => sysSchema.type? d.type)) (hne : name ≠ "Post" ∧ name ≠ "Page") :
      IsNodeInterface sysSchema [postDeclaration, pageDeclaration] name
        ↔ name ∈ Keyed.keys sysReferences := by
    rw [hkeys, List.mem_append, List.mem_filter, and_iff_right hname,
      or_iff_right (by simp [postDeclaration, pageDeclaration, hne])]
    classical exact decide_eq_true_iff.symm
  have hentry : IsNodeInterface sysSchema [postDeclaration, pageDeclaration] "Entry" :=
    (hqualifies (by decide) (by decide)).mpr (by decide)
  obtain ⟨i, f, hi, hf, hunited⟩ := hunites "Entry" (by decide) hentry
  cases hf
  exact ⟨hschema, hvalid, h, hentry, mt (hqualifies (by decide) (by decide)).mp (by decide), i, hi,
    hunited⟩

end RemoteNodes
