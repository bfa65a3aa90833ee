import Mathlib.Tactic
import RemoteNodes.Proofs.Document.Isolated
import RemoteNodes.Proofs.Node.Agreeing
import RemoteNodes.Proofs.Node.Declared
/-!
The order of declarations. Compiling goes through them one after the other, and makes maps which
keep the order in which keys came; but what it reads of the declarations is only which ones there
are.

* `SameDeclarations`: lists with the same declarations, each list with distinct types.
* `exists_referenceFragments`: **references of the same declarations agree**, those of interfaces
  included.
* `compileQueries_eq_ok_iff_mapM`: all documents, each compiled for itself.
* `compileQueries_of_perm`: **the documents do not depend on the order of the declarations**.
-/

namespace RemoteNodes

open scoped List

/-! ### Lists with the same members -/

/-- Steps that succeed over a list succeed over every list with the same members, and give the same
results. -/
lemma exists_mapM_of_mem_iff {ε α β : Type} {f : α → Except ε β} {xs xs' : List α} {ys : List β}
    (h : xs.mapM f = .ok ys) (hmem : ∀ x, x ∈ xs ↔ x ∈ xs') :
    ∃ ys', xs'.mapM f = .ok ys' ∧ ∀ y, y ∈ ys ↔ y ∈ ys' := by
  obtain ⟨hgives, hcomes⟩ := mem_of_mapM h
  obtain ⟨ys', hys'⟩ : ∃ ys', xs'.mapM f = .ok ys' := by
    refine exists_mapM fun x hx => ?_
    obtain ⟨y, -, hy⟩ := hgives x ((hmem x).mpr hx)
    exact ⟨y, hy⟩
  obtain ⟨hgives', hcomes'⟩ := mem_of_mapM hys'
  refine ⟨ys', hys', fun y => ⟨fun hy => ?_, fun hy => ?_⟩⟩
  · obtain ⟨x, hx, hxy⟩ := hcomes y hy
    obtain ⟨y', hy', hxy'⟩ := hgives' x ((hmem x).mp hx)
    rwa [Except.ok.inj (hxy.symm.trans hxy')]
  · obtain ⟨x, hx, hxy⟩ := hcomes' y hy
    obtain ⟨y', hy', hxy'⟩ := hgives x ((hmem x).mpr hx)
    rwa [Except.ok.inj (hxy.symm.trans hxy')]

lemma Keyed.get?_overlay_filterMap {α : Type} (names : List String) (g : String → Option α)
    (m : Keyed α) (key : String) :
    get? (overlay m (names.filterMap fun name => (g name).map (name, ·))) key
      = if key ∈ names then (g key).or (get? m key) else get? m key := by
  induction names generalizing m with
  | nil => rfl
  | cons name names ih =>
      cases hname : g name with
      | none =>
          rw [List.filterMap_cons_none (by rw [hname]; rfl), ih]
          by_cases hkey : key = name
          · subst hkey
            simp [hname]
          · simp [hkey]
      | some value =>
          have hoverlay : overlay m ((name, value) :: names.filterMap fun name =>
              (g name).map (name, ·)) = overlay (put m name value) (names.filterMap fun name =>
              (g name).map (name, ·)) := rfl
          rw [List.filterMap_cons_some (by rw [hname]; rfl), hoverlay, ih]
          by_cases hkey : key = name
          · subst hkey
            simp [hname]
          · simp [hkey, get?_put_of_ne m value hkey]

/-- Two lists hold the same declarations, and no list declares a type twice. -/
structure SameDeclarations (declarations declarations' : List NodeDeclaration) : Prop where
  mem_iff : ∀ d, d ∈ declarations ↔ d ∈ declarations'
  distinct : (declarations.map (·.type)).Nodup
  distinct' : (declarations'.map (·.type)).Nodup

lemma SameDeclarations.symm {declarations declarations' : List NodeDeclaration}
    (h : SameDeclarations declarations declarations') :
    SameDeclarations declarations' declarations :=
  ⟨fun d => (h.mem_iff d).symm, h.distinct', h.distinct⟩

lemma SameDeclarations.of_perm {declarations declarations' : List NodeDeclaration}
    (hperm : declarations ~ declarations') (hdistinct : (declarations.map (·.type)).Nodup) :
    SameDeclarations declarations declarations' :=
  ⟨fun _ => hperm.mem_iff, hdistinct, (hperm.map _).nodup_iff.mp hdistinct⟩

variable {schema : Schema} {declarations declarations' : List NodeDeclaration}
  {references references' : References} {customs : List Fragment} {aliases : Aliases}

lemma SameDeclarations.map_type_mem_iff (h : SameDeclarations declarations declarations')
    (type : String) :
    type ∈ declarations.map (·.type) ↔ type ∈ declarations'.map (·.type) := by
  simp only [List.mem_map, h.mem_iff]

/-! ### References -/

/-- A declaration is read alike at every position, apart from what a fault tells. -/
lemma NodeDeclaration.read_eq_ok_iff {d : NodeDeclaration} {index index' : Nat}
    {x : Document × Fragment} : d.read index = .ok x ↔ d.read index' = .ok x :=
  Iff.trans (b := _) read_eq_ok read_eq_ok.symm

/-- A declared type with its reference fragment. -/
def NodeDeclaration.entry (schema : Schema) (d : NodeDeclaration) :
    Except Fault (NamedType × Fragment) := do
  let (_, idFragment) ← d.read 0
  match (schema.type? d.type).filter (·.isObject) with
  | none => throw (.configuration (.notAnObjectType d.type 0))
  | some type => return (type, idFragment.reference d.type)

/-- Each declaration gives its own reference. -/
lemma typeReferences_eq_ok_iff {index : Nat} {ds : List NodeDeclaration}
    {entries : List (NamedType × Fragment)} :
    typeReferences schema index ds = .ok entries ↔ ds.mapM (·.entry schema) = .ok entries := by
  induction ds generalizing index entries with
  | nil => rfl
  | cons d ds ih =>
      rw [typeReferences, List.mapM_cons, NodeDeclaration.entry, bind_eq_ok, bind_eq_ok]
      simp only [bind_eq_ok]
      constructor
      · rintro ⟨x, hread, h⟩
        cases htype : (schema.type? d.type).filter (·.isObject) with
        | none =>
            simp only [htype] at h
            cases h
        | some t =>
            simp only [htype] at h
            obtain ⟨rest, hrest, h⟩ := bind_eq_ok.mp h
            exact ⟨_, ⟨x, NodeDeclaration.read_eq_ok_iff.mp hread, rfl⟩, rest, ih.mp hrest, h⟩
      · rintro ⟨entry, ⟨x, hread, hentry⟩, rest, hrest, h⟩
        refine ⟨x, NodeDeclaration.read_eq_ok_iff.mp hread, ?_⟩
        cases htype : (schema.type? d.type).filter (·.isObject) with
        | none =>
            simp only [htype] at hentry
            cases hentry
        | some t =>
            simp only [htype] at hentry ⊢
            cases hentry
            exact bind_eq_ok.mpr ⟨rest, ih.mpr hrest, h⟩

/-- The reference of an interface depends on what stands under the names of its possible types. -/
lemma interfaceReference?_of_agree (h : references.Agree references') (name : String) :
    interfaceReference? schema references' name = interfaceReference? schema references name := by
  rw [interfaceReference?, interfaceReference?]
  simp only [h _]

lemma mem_mentionedInterfaces {types : List NamedType} {name : String} :
    name ∈ mentionedInterfaces types ↔ ∃ t ∈ types, name ∈ t.interfaces := by
  rw [mentionedInterfaces, List.mem_eraseDups, List.mem_flatMap]

/-- The same declarations have references that agree, in whatever order they stand. -/
theorem exists_referenceFragments (hsame : SameDeclarations declarations declarations')
    (h : referenceFragments schema declarations = .ok references) :
    ∃ references', referenceFragments schema declarations' = .ok references'
      ∧ references.Agree references' := by
  obtain ⟨entries, hentries, h⟩ := bind_eq_ok.mp h
  cases h
  obtain ⟨entries', hmapM, hmem⟩ :=
    exists_mapM_of_mem_iff (typeReferences_eq_ok_iff.mp hentries) hsame.mem_iff
  have hentries' : typeReferences schema 0 declarations' = .ok entries' :=
    typeReferences_eq_ok_iff.mpr hmapM
  refine ⟨_, bind_eq_ok.mpr ⟨entries', hentries', rfl⟩, ?_⟩
  have hdeclared : (declaredReferences entries).Agree (declaredReferences entries') := by
    refine Keyed.agree_ofPairs ?_ ?_ fun p => ?_
    · rw [keys_entries hentries]
      exact hsame.distinct
    · rw [keys_entries hentries']
      exact hsame.distinct'
    · simp only [List.mem_map, hmem]
  intro name
  have hmentioned : name ∈ mentionedInterfaces (entries.map (·.1))
      ↔ name ∈ mentionedInterfaces (entries'.map (·.1)) := by
    simp only [mem_mentionedInterfaces, List.mem_map, hmem]
  rw [← declaredReferences, ← declaredReferences, Keyed.get?_overlay_filterMap,
    Keyed.get?_overlay_filterMap, interfaceReference?_of_agree hdeclared, hdeclared name]
  simp only [hmentioned]

/-! ### Documents -/

/-- The document of one declaration, out of references and custom fragments. -/
def NodeDeclaration.compiled (schema : Schema) (declarations : List NodeDeclaration)
    (references : References) (customs : List Fragment) (aliases : Aliases) (d : NodeDeclaration) :
    Except Fault (String × Document) := do
  let (queries, idFragment) ← d.read 0
  let usages := Usages.ofEvents (usageEvents schema references customs)
  let document ← (compileDocument schema declarations d queries
    (fragmentsFor schema usages references customs d.type)
    (otherFragments schema declarations references customs) aliases idFragment.name).outcome
  return (d.type, document)

lemma compileEach_eq_ok_iff {index : Nat} {ds : List NodeDeclaration}
    {pairs : List (String × Document)} (hds : ∀ d ∈ ds, d ∈ declarations) :
    (compileEach schema declarations
      (nodeFragments schema declarations (Usages.ofEvents (usageEvents schema references customs))
        references customs)
      (otherFragments schema declarations references customs) aliases index ds).outcome = .ok pairs
    ↔ ds.mapM (·.compiled schema declarations references customs aliases) = .ok pairs := by
  induction ds generalizing index pairs with
  | nil => rfl
  | cons d ds ih =>
      obtain ⟨hd, hds⟩ := List.forall_mem_cons.mp hds
      rw [compileEach_cons_eq_ok, get?_nodeFragments hd, Option.getD_some, List.mapM_cons]
      simp only [NodeDeclaration.compiled, bind_eq_ok, ih hds]
      constructor
      · rintro ⟨queries, idFragment, document, rest, hread, hdocument, hrest, rfl⟩
        exact ⟨_, ⟨_, NodeDeclaration.read_eq_ok_iff.mp hread, document, hdocument, rfl⟩, rest,
          hrest, rfl⟩
      · rintro ⟨_, ⟨⟨queries, idFragment⟩, hread, document, hdocument, heq⟩, rest, hrest, hpairs⟩
        cases heq
        cases hpairs
        exact ⟨queries, idFragment, document, rest, NodeDeclaration.read_eq_ok_iff.mp hread,
          hdocument, hrest, rfl⟩

/-- All documents are compiled exactly if each of them is, for itself. -/
theorem compileQueries_eq_ok_iff_mapM {sources : List String} {documents : Keyed Document} :
    (compileQueries schema declarations sources aliases).outcome = .ok documents
      ↔ ∃ customs references pairs, readFragments sources = .ok customs
        ∧ referenceFragments schema declarations = .ok references
        ∧ declarations.mapM (·.compiled schema declarations references customs aliases) = .ok pairs
        ∧ Keyed.ofPairs pairs = documents := by
  rw [compileQueries_eq_ok]
  constructor
  · rintro ⟨customs, references, _, pairs, hcustoms, hreferences, rfl, hpairs, hdocuments⟩
    exact ⟨customs, references, pairs, hcustoms, hreferences,
      (compileEach_eq_ok_iff fun _ => id).mp hpairs, hdocuments⟩
  · rintro ⟨customs, references, pairs, hcustoms, hreferences, hpairs, hdocuments⟩
    exact ⟨customs, references, _, pairs, hcustoms, hreferences, rfl,
      (compileEach_eq_ok_iff fun _ => id).mpr hpairs, hdocuments⟩

/-- Each document stands under the type of its declaration. -/
lemma map_type_of_compiled {ds : List NodeDeclaration} {pairs : List (String × Document)}
    (h : ds.mapM (·.compiled schema declarations references customs aliases) = .ok pairs) :
    Keyed.keys pairs = ds.map (·.type) := by
  have hall := mapM_eq_ok.mp h
  clear h
  induction hall with
  | nil => rfl
  | cons hfirst _ ih =>
      obtain ⟨⟨queries, idFragment⟩, -, hfirst⟩ := bind_eq_ok.mp hfirst
      obtain ⟨document, -, hfirst⟩ := bind_eq_ok.mp hfirst
      cases hfirst
      rw [Keyed.keys, List.map_cons, List.map_cons, ← Keyed.keys, ih]

lemma isNodeType_of_mem_iff {types types' : List String}
    (hmem : ∀ type, type ∈ types ↔ type ∈ types') (t : NamedType) :
    schema.isNodeType types' t = schema.isNodeType types t := by
  have hcontains (type : String) : types'.contains type = types.contains type := by
    rw [Bool.eq_iff_iff, List.contains_iff_mem, List.contains_iff_mem, hmem]
  simp only [Schema.isNodeType, hcontains]

/-- The document of a declaration depends on which others there are, and on what stands under each
name among the references. -/
lemma compiled_of_same (hsame : SameDeclarations declarations declarations')
    (hagree : references.Agree references') (d : NodeDeclaration) :
    d.compiled schema declarations' references' customs aliases
      = d.compiled schema declarations references customs aliases := by
  have hother : otherFragments schema declarations' references' customs
      = otherFragments schema declarations references customs := by
    rw [otherFragments, otherFragments, makeShallow_of_agree hagree]
    refine congrArg _ (List.filter_congr fun f _ => congrArg _ ?_)
    rw [Bool.eq_iff_iff, List.contains_iff_mem, List.contains_iff_mem]
    simp only [List.mem_flatMap, hsame.mem_iff]
  have haliases : aliasRewriting schema (declarations'.map (·.type)) aliases
      = aliasRewriting schema (declarations.map (·.type)) aliases := by
    have htypes : schema.isNodeType (declarations'.map (·.type))
        = schema.isNodeType (declarations.map (·.type)) :=
      funext (isNodeType_of_mem_iff hsame.map_type_mem_iff)
    rw [aliasRewriting, aliasRewriting, htypes]
  simp only [NodeDeclaration.compiled, usageEvents_of_agree hagree, fragmentsFor_of_agree hagree,
    hother, compileDocument, Document.addAliases, haliases]

/-- What compiles in one order compiles in the other. -/
lemma exists_compileQueries_of_same (hsame : SameDeclarations declarations declarations')
    {sources : List String} {documents : Keyed Document}
    (h : (compileQueries schema declarations sources aliases).outcome = .ok documents) :
    ∃ documents', (compileQueries schema declarations' sources aliases).outcome = .ok documents'
      ∧ documents ~ documents' ∧ documents.Agree documents' := by
  obtain ⟨customs, references, pairs, hcustoms, hreferences, hpairs, rfl⟩ :=
    compileQueries_eq_ok_iff_mapM.mp h
  obtain ⟨references', hreferences', hagree⟩ := exists_referenceFragments hsame hreferences
  obtain ⟨pairs', hpairs', hmem⟩ := exists_mapM_of_mem_iff hpairs hsame.mem_iff
  simp only [← compiled_of_same hsame hagree] at hpairs'
  have hkeys : (Keyed.keys pairs).Nodup := map_type_of_compiled hpairs ▸ hsame.distinct
  have hkeys' : (Keyed.keys pairs').Nodup := map_type_of_compiled hpairs' ▸ hsame.distinct'
  refine ⟨_, compileQueries_eq_ok_iff_mapM.mpr
    ⟨customs, references', pairs', hcustoms, hreferences', hpairs', rfl⟩, ?_,
    Keyed.agree_ofPairs hkeys hkeys' hmem⟩
  rw [Keyed.ofPairs_of_nodup hkeys, Keyed.ofPairs_of_nodup hkeys']
  exact (List.perm_ext_iff_of_nodup hkeys.of_map hkeys'.of_map).mpr hmem

/-- Declarations of distinct types compile in one order exactly if they compile in every other one,
and then each type has the same document. -/
theorem compileQueries_of_perm (schema : Schema) (declarations permuted : List NodeDeclaration)
    (sources : List String) (aliases : Aliases) (hperm : declarations ~ permuted)
    (hdistinct : (declarations.map (·.type)).Nodup) :
    ((∃ documents, (compileQueries schema declarations sources aliases).outcome = .ok documents)
      ↔ ∃ documents, (compileQueries schema permuted sources aliases).outcome = .ok documents)
    ∧ ∀ documents documents',
      (compileQueries schema declarations sources aliases).outcome = .ok documents →
      (compileQueries schema permuted sources aliases).outcome = .ok documents' →
        documents ~ documents'
          ∧ ∀ type, Keyed.get? documents type = Keyed.get? documents' type := by
  have hsame := SameDeclarations.of_perm hperm hdistinct
  refine ⟨⟨?_, ?_⟩, fun documents documents' h h' => ?_⟩
  · rintro ⟨documents, h⟩
    obtain ⟨documents', h', -⟩ := exists_compileQueries_of_same hsame h
    exact ⟨documents', h'⟩
  · rintro ⟨documents', h'⟩
    obtain ⟨documents, h, -⟩ := exists_compileQueries_of_same hsame.symm h'
    exact ⟨documents, h⟩
  · obtain ⟨documents'', h'', heqs⟩ := exists_compileQueries_of_same hsame h
    rwa [Except.ok.inj (h'.symm.trans h'')]

/-- The other order of two declarations gives the same two documents. -/
theorem compileQueries_of_perm_pair : ∃ documents,
    (compileQueries pairSchema [barDeclaration, fooDeclaration] [pairSource]
        defaultAliases).outcome = .ok documents
      ∧ Keyed.get? documents "Foo" = some pairFooDocument
      ∧ Keyed.get? documents "Bar" = some pairBarDocument := by
  obtain ⟨hiff, hsame⟩ := compileQueries_of_perm pairSchema [fooDeclaration, barDeclaration]
    [barDeclaration, fooDeclaration] [pairSource] defaultAliases (.swap _ _ _) (by decide)
  obtain ⟨documents, hdocuments⟩ := hiff.mp ⟨_, compileQueries_pair⟩
  have hget := (hsame _ documents compileQueries_pair hdocuments).2
  exact ⟨documents, hdocuments, (hget "Foo").symm, (hget "Bar").symm⟩

end RemoteNodes
