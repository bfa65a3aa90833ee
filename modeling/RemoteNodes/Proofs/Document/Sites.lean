import Mathlib.Tactic
import RemoteNodes.Proofs.Document.Compilation
import RemoteNodes.Proofs.Response.Removal
/-!
Where selection sets stand in a document: what they belong to, and the type that they select on as
far as the types around them are known.

* `Site`, `Site.Holds`: a selection set in its place, and those inside it at any depth.
* `Document.HasSite`: the selection sets of a document.
* `Rewriting.KeepsSites`: a rewriting that touches aliases of fields, and adds or removes only what
  holds no selections; `Site.Holds.of_rewrite`: **after it every set comes from a set in the same
  place**.
* `Site.Holds.of_dropSpreads`: so it is when spreads are taken out.
* `keepsSites_typenameRewriting`, `keepsSites_aliasRewriting`, `keepsSites_spreadRewriting`: the
  rewritings of a document.
* `Compilation.exists_of_operation_hasSite`, `Compilation.exists_of_hasSite`: **the stages that a
  selection set of a compiled document has gone through**.
* `Compilation.spread_mem_finish`, `Compilation.exists_spread_mem_spread`,
  `Compilation.mem_used_of_spread`: what a selection set spreads after them.
-/

namespace RemoteNodes

/-- A selection set, what it belongs to, and the composite type that it selects on. -/
structure Site where
  owner : Owner
  parent? : Option NamedType
  selections : List Selection

/-- The selection set of an operation. -/
def Operation.site (schema : Schema) (o : Operation) : Site :=
  ⟨.definition, schema.operationType? o.kind, o.selections⟩

/-- The selection set of a fragment. -/
def Fragment.site (schema : Schema) (f : Fragment) : Site :=
  ⟨.definition, schema.composite? f.condition, f.selections⟩

/-- A selection set holds itself and the sets of the fields and of the inline fragments in it. -/
inductive Site.Holds (schema : Schema) : Site → Site → Prop
  | refl (site : Site) : Holds schema site site
  | field {site inside : Site} {alias? : Option String} {name : String}
      {arguments : List Argument} {directives : List Directive} {ss : List Selection}
      (hs : .field alias? name arguments directives (some ss) ∈ site.selections)
      (h : Holds schema ⟨.field, schema.insideField? site.parent? name, ss⟩ inside) :
      Holds schema site inside
  | inline {site inside : Site} {condition? : Option String} {directives : List Directive}
      {ss : List Selection} (hs : .inline condition? directives ss ∈ site.selections)
      (h : Holds schema ⟨.inline, schema.insideInline? site.parent? condition?, ss⟩ inside) :
      Holds schema site inside

/-- A selection set that an operation holds. -/
def Operation.HasSite (schema : Schema) (o : Operation) (site : Site) : Prop :=
  (o.site schema).Holds schema site

/-- A selection set that a document holds, in an operation or in a fragment. -/
def Document.HasSite (schema : Schema) (document : Document) (site : Site) : Prop :=
  (∃ o ∈ document.operations, o.HasSite schema site)
    ∨ ∃ f ∈ document.fragments, (f.site schema).Holds schema site

/-- A selection set after a rewriting. -/
def Site.rewrite (schema : Schema) (r : Rewriting) (site : Site) : Site :=
  { site with
    selections := r.set site.owner site.parent? (rewriteAll schema r site.parent? site.selections) }

/-- A selection set without the spreads of the named fragments. -/
def Site.dropSpreads (names : List String) (site : Site) : Site :=
  { site with selections := dropSpreadsIn names site.selections }

section Sites

variable {schema : Schema} {r : Rewriting} {site site' : Site} {names : List String}

/-! ### Rewriting -/

/-- A rewriting keeps selection sets in their places if all that it changes about a field is its
alias, and whatever it puts into a set holds no sets. -/
structure Rewriting.KeepsSites (r : Rewriting) : Prop where
  field : ∀ parent? alias? name arguments directives selections?, ∃ alias?',
    r.field parent? (.field alias? name arguments directives selections?)
      = .field alias?' name arguments directives selections?
  set : ∀ owner parent? ss, ∀ s ∈ r.set owner parent? ss, s ∈ ss ∨ s.sets = []

/-- A field that comes out of a rewriting was a field of the same name. -/
lemma Rewriting.KeepsSites.exists_of_field (hr : r.KeepsSites) {parent? : Option NamedType}
    {s : Selection} {alias? : Option String} {name : String} {arguments : List Argument}
    {directives : List Directive} {ss : List Selection}
    (h : s.rewrite schema r parent? = .field alias? name arguments directives (some ss)) :
    ∃ alias?' before, s = .field alias?' name arguments directives (some before)
      ∧ ss = (Site.rewrite schema r
        ⟨.field, schema.insideField? parent? name, before⟩).selections := by
  cases s with
  | field alias?' name' arguments' directives' selections? =>
      cases selections? with
      | none =>
          obtain ⟨alias?'', halias⟩ := hr.field parent? alias?' name' arguments' directives' none
          rw [Selection.rewrite, halias] at h
          cases h
      | some before =>
          rw [Selection.rewrite] at h
          obtain ⟨alias?'', halias⟩ := hr.field parent? alias?' name' arguments' directives' _
          rw [halias] at h
          cases h
          exact ⟨alias?', before, rfl, rfl⟩
  | spread fragment directives' => rw [Selection.rewrite] at h; cases h
  | inline condition? directives' before => rw [Selection.rewrite] at h; cases h

/-- An inline fragment that comes out of a rewriting was one on the same type. -/
lemma Rewriting.KeepsSites.exists_of_inline (hr : r.KeepsSites) {parent? : Option NamedType}
    {s : Selection} {condition? : Option String} {directives : List Directive}
    {ss : List Selection} (h : s.rewrite schema r parent? = .inline condition? directives ss) :
    ∃ before, s = .inline condition? directives before
      ∧ ss = ((⟨.inline, schema.insideInline? parent? condition?, before⟩ : Site).rewrite schema
          r).selections := by
  cases s with
  | field alias? name arguments directives' selections? =>
      cases selections? with
      | none =>
          obtain ⟨alias?', halias⟩ := hr.field parent? alias? name arguments directives' none
          rw [Selection.rewrite, halias] at h
          cases h
      | some before =>
          rw [Selection.rewrite] at h
          obtain ⟨alias?', halias⟩ := hr.field parent? alias? name arguments directives' _
          rw [halias] at h
          cases h
  | spread fragment directives' => rw [Selection.rewrite] at h; cases h
  | inline condition?' directives' before =>
      rw [Selection.rewrite] at h
      cases h
      exact ⟨before, rfl, rfl⟩

/-- What holds sets in a rewritten set has been there before, as far as it has not been rewritten
itself. -/
lemma Rewriting.KeepsSites.exists_of_mem (hr : r.KeepsSites) {s' : Selection}
    (h : s' ∈ (site.rewrite schema r).selections) (hsets : s'.sets ≠ []) :
    ∃ s ∈ site.selections, s.rewrite schema r site.parent? = s' := by
  have hmem := (hr.set _ _ _ s' h).resolve_right hsets
  rw [rewriteAll_eq_map] at hmem
  exact List.mem_map.mp hmem

/-- Every selection set of a rewritten one comes from a set in the same place. -/
theorem Site.Holds.of_rewrite (hr : r.KeepsSites) (h : (site.rewrite schema r).Holds schema site') :
    ∃ before, site.Holds schema before ∧ site' = before.rewrite schema r := by
  generalize hstart : site.rewrite schema r = start at h
  induction h generalizing site with
  | refl => exact ⟨site, .refl site, hstart.symm⟩
  | field hs h ih =>
      subst hstart
      obtain ⟨s, hmem, heq⟩ := hr.exists_of_mem hs (by simp [Selection.sets])
      obtain ⟨alias?, before, rfl, rfl⟩ := hr.exists_of_field heq
      obtain ⟨first, hfirst, heq⟩ := @ih ⟨.field, _, before⟩ rfl
      exact ⟨first, .field hmem hfirst, heq⟩
  | inline hs h ih =>
      subst hstart
      obtain ⟨s, hmem, heq⟩ := hr.exists_of_mem hs (by simp [Selection.sets])
      obtain ⟨before, rfl, rfl⟩ := hr.exists_of_inline heq
      obtain ⟨first, hfirst, heq⟩ := @ih ⟨.inline, _, before⟩ rfl
      exact ⟨first, .inline hmem hfirst, heq⟩

/-! ### The rewritings of a document -/

lemma keepsSites_typenameRewriting : typenameRewriting.KeepsSites where
  field _ alias? _ _ _ _ := ⟨alias?, rfl⟩
  set owner parent? ss s hs := by
    dsimp only [typenameRewriting] at hs
    split at hs
    · rcases List.mem_cons.mp hs with rfl | hs
      · exact .inr (by simp [Selection.plain, Selection.sets])
      · exact .inl hs
    · exact .inl hs

lemma keepsSites_aliasRewriting {types : List String} {aliases : Aliases} :
    (aliasRewriting schema types aliases).KeepsSites where
  field _ _ _ _ _ _ := ⟨_, rfl⟩
  set _ _ _ _ hs := .inl hs

/-- A field that gets an alias keeps everything else, and the alias is that of its name. -/
lemma exists_alias_rewrite (schema : Schema) (types : List String) (aliases : Aliases)
    (parent? : Option NamedType) (alias? : Option String) (name : String)
    (arguments : List Argument) (directives : List Directive)
    (selections? : Option (List Selection)) :
    ∃ alias?', (alias?' = alias? ∨ alias?' = aliases.alias? name)
      ∧ (Selection.field alias? name arguments directives selections?).rewrite schema
          (aliasRewriting schema types aliases) parent?
        = .field alias?' name arguments directives (selections?.map
            (rewriteAll schema (aliasRewriting schema types aliases)
              (schema.insideField? parent? name))) := by
  have hfield (ss? : Option (List Selection)) :
      ∃ alias?', (alias?' = alias? ∨ alias?' = aliases.alias? name)
        ∧ (aliasRewriting schema types aliases).field parent?
            (.field alias? name arguments directives ss?)
          = .field alias?' name arguments directives ss? := by
    refine ⟨_, ?_, rfl⟩
    cases aliases.alias? name with
    | none => exact .inl rfl
    | some new =>
        dsimp only
        -- a type name gets it anywhere, another field only on node types
        split <;> split
        · exact .inr rfl
        · exact .inl rfl
        · exact .inr rfl
        · exact .inl rfl
  cases selections? with
  | none =>
      rw [Selection.rewrite]
      exact hfield none
  | some ss =>
      rw [Selection.rewrite]
      exact hfield _

lemma keepsSites_spreadRewriting {type : String} :
    (spreadRewriting schema type names).KeepsSites where
  field _ alias? _ _ _ _ := ⟨alias?, rfl⟩
  set owner parent? ss s hs := by
    dsimp only [spreadRewriting] at hs
    split at hs
    · refine (mem_insertSpreads hs).imp_right ?_
      rintro (rfl | ⟨name, -, rfl⟩)
      · rw [Selection.plain, Selection.sets]
      · rw [Selection.sets]
    · exact .inl hs

/-! ### Taking spreads out -/

/-- Every selection set that is left when spreads are taken out comes from a set in the same place.
-/
theorem Site.Holds.of_dropSpreads (h : (site.dropSpreads names).Holds schema site') :
    ∃ before, site.Holds schema before ∧ site' = before.dropSpreads names := by
  generalize hstart : site.dropSpreads names = start at h
  induction h generalizing site with
  | refl => exact ⟨site, .refl site, hstart.symm⟩
  | field hs h ih =>
      subst hstart
      obtain ⟨before?, hbefore, hmem⟩ := field_mem_dropSpreadsIn.mp hs
      obtain ⟨before, rfl, rfl⟩ := Option.map_eq_some_iff.mp hbefore
      obtain ⟨first, hfirst, heq⟩ := @ih ⟨.field, _, before⟩ rfl
      exact ⟨first, .field hmem hfirst, heq⟩
  | inline hs h ih =>
      subst hstart
      obtain ⟨before, rfl, hmem⟩ := inline_mem_dropSpreadsIn.mp hs
      obtain ⟨first, hfirst, heq⟩ := @ih ⟨.inline, _, before⟩ rfl
      exact ⟨first, .inline hmem hfirst, heq⟩

end Sites

/-! ### Spreads after the stages -/

section Spreads

variable {schema : Schema} {r : Rewriting} {parent? : Option NamedType} {ss : List Selection}
  {name : String} {directives : List Directive} {site site' : Site}

/-- Spreads are left as they are when all that changes about fields is their alias. -/
lemma Rewriting.KeepsSites.spread_mem_rewriteAll (hr : r.KeepsSites) :
    .spread name directives ∈ rewriteAll schema r parent? ss ↔ .spread name directives ∈ ss := by
  rw [rewriteAll_eq_map, List.mem_map]
  constructor
  · rintro ⟨s, hs, heq⟩
    cases s with
    | field alias? name' arguments directives' selections? =>
        cases selections? with
        | none =>
            obtain ⟨alias?', halias⟩ := hr.field parent? alias? name' arguments directives' none
            rw [Selection.rewrite, halias] at heq
            cases heq
        | some inner =>
            rw [Selection.rewrite] at heq
            obtain ⟨alias?', halias⟩ := hr.field parent? alias? name' arguments directives' _
            rw [halias] at heq
            cases heq
    | spread fragment directives' =>
        rw [Selection.rewrite] at heq
        exact heq ▸ hs
    | inline condition? directives' inner =>
        rw [Selection.rewrite] at heq
        cases heq
  · exact fun hs => ⟨_, hs, by rw [Selection.rewrite]⟩

lemma spread_mem_typenameRewriting :
    .spread name directives ∈ (site.rewrite schema typenameRewriting).selections
      ↔ .spread name directives ∈ site.selections := by
  rw [Site.rewrite]
  dsimp only [typenameRewriting]
  split
  · rw [List.mem_cons]
    exact (or_iff_right (by simp [Selection.plain])).trans
      keepsSites_typenameRewriting.spread_mem_rewriteAll
  · exact keepsSites_typenameRewriting.spread_mem_rewriteAll

lemma mem_spreads_iff :
    name ∈ ss.filterMap (·.spread?) ↔ ∃ directives, .spread name directives ∈ ss := by
  rw [List.mem_filterMap]
  constructor
  · rintro ⟨s, hs, hspread⟩
    cases s with
    | spread fragment directives =>
        cases hspread
        exact ⟨directives, hs⟩
    | field _ _ _ _ _ | inline _ _ _ => cases hspread
  · rintro ⟨directives, hs⟩
    exact ⟨_, hs, rfl⟩

/-- All node fragments are spread in a set that gets their spreads. -/
lemma exists_spread_mem_insertSpreads {names : List String} (hname : name ∈ names)
    (ss : List Selection) : ∃ directives, .spread name directives ∈ insertSpreads names ss := by
  have hkept {s : Selection} {spreads : List Selection} (hs : s ∈ ss ++ spreads)
      (hspread : s.isPlainTypename = false) :
      s ∈ .plain "__typename" :: ss.filter (!·.isPlainTypename) ++ spreads := by
    rcases List.mem_append.mp hs with hs | hs
    · refine List.mem_append_left _ (List.mem_cons_of_mem _ (List.mem_filter.mpr ⟨hs, ?_⟩))
      rw [hspread]
      rfl
    · exact List.mem_append_right _ hs
  have hmem : ∃ directives, .spread name directives ∈ ss
      ++ (names.filter (!(ss.filterMap (·.spread?)).contains ·)).map (Selection.spread · []) := by
    by_cases hpresent : name ∈ ss.filterMap (·.spread?)
    · obtain ⟨directives, hs⟩ := mem_spreads_iff.mp hpresent
      exact ⟨directives, List.mem_append_left _ hs⟩
    · refine ⟨[], List.mem_append_right _ (List.mem_map_of_mem (List.mem_filter.mpr ⟨hname, ?_⟩))⟩
      simpa using hpresent
  obtain ⟨directives, hmem⟩ := hmem
  refine ⟨directives, ?_⟩
  rw [insertSpreads]
  split
  · exact hmem
  · exact hkept hmem rfl

/-- What a selection set spreads is spread by what holds it. -/
lemma Site.Holds.spreads (h : site.Holds schema site')
    (hs : .spread name directives ∈ site'.selections) : name ∈ spreadNamesIn site.selections := by
  rw [mem_spreadNamesIn]
  induction h with
  | refl => exact ⟨_, hs, by simp [Selection.spreadNames]⟩
  | field hmem _ ih | inline hmem _ ih =>
      refine ⟨_, hmem, ?_⟩
      rw [Selection.spreadNames, mem_spreadNamesIn]
      exact ih hs

end Spreads

/-! ### Compiled documents -/

namespace Compilation

variable {schema : Schema} {declarations : List NodeDeclaration} {sources : List String}
  {aliases : Aliases} {type : String} {document : Document}
  (c : Compilation schema declarations sources aliases type document)

/-- A selection set after the stages that all sets go through. -/
def finish (site : Site) : Site :=
  ((site.rewrite schema typenameRewriting).rewrite schema
    (aliasRewriting schema (declarations.map (·.type)) aliases)).dropSpreads c.duplicates

/-- A selection set of an operation after the stage that spreads the node fragments. -/
def spread (site : Site) : Site :=
  site.rewrite schema (spreadRewriting schema type (c.nodeFragments.map (·.name)))

lemma exists_of_holds_finish {site site' : Site} (h : (c.finish site).Holds schema site') :
    ∃ before, site.Holds schema before ∧ site' = c.finish before := by
  obtain ⟨aliased, haliased, rfl⟩ := h.of_dropSpreads
  obtain ⟨named, hnamed, rfl⟩ := haliased.of_rewrite keepsSites_aliasRewriting
  obtain ⟨before, hbefore, rfl⟩ := hnamed.of_rewrite keepsSites_typenameRewriting
  exact ⟨before, hbefore, rfl⟩

/-- Every selection set of an operation comes from a set of the queries that gets the node fragments
and goes through the stages for all sets. -/
theorem exists_of_operation_hasSite {o : Operation} {site : Site} (ho : o ∈ document.operations)
    (h : o.HasSite schema site) : ∃ o₀ ∈ c.queries.operations, ∃ before,
      o₀.HasSite schema before ∧ site = c.finish (c.spread before) := by
  rw [c.operations_eq] at ho
  obtain ⟨o', ho', rfl⟩ := List.mem_map.mp ho
  obtain ⟨o₀, ho₀, hkind, hselections⟩ := exists_of_mem_operations_assemble ho'
  have hsite : Operation.site schema
        { o' with selections := dropSpreadsIn c.duplicates o'.selections }
      = c.finish (c.spread (o₀.site schema)) := by
    rw [Operation.site, hselections, hkind]
    rfl
  rw [Operation.HasSite, hsite] at h
  obtain ⟨spreaded, hspreaded, rfl⟩ := c.exists_of_holds_finish h
  obtain ⟨before, hbefore, rfl⟩ := hspreaded.of_rewrite keepsSites_spreadRewriting
  exact ⟨o₀, ho₀, before, hbefore, rfl⟩

/-- Every selection set of a document has gone through the stages for all sets. -/
theorem exists_of_hasSite {site : Site} (h : document.HasSite schema site) :
    ∃ before, site = c.finish before := by
  rcases h with ⟨o, ho, h⟩ | ⟨f, hf, h⟩
  · obtain ⟨-, -, before, -, rfl⟩ := c.exists_of_operation_hasSite ho h
    exact ⟨_, rfl⟩
  · rw [c.fragments_eq] at hf
    obtain ⟨f', hf', rfl⟩ := List.mem_map.mp hf
    have hf' := (List.mem_filter.mp hf').1
    rw [Stages.assembled, fragments_assemble] at hf'
    obtain ⟨f₀, -, rfl⟩ := List.mem_map.mp hf'
    have h : (c.finish (f₀.site schema)).Holds schema site := h
    obtain ⟨before, -, rfl⟩ := c.exists_of_holds_finish h
    exact ⟨before, rfl⟩

variable {site : Site} {name : String} {directives : List Directive}

/-- After the stages for all sets a set spreads what it did, up to the fragments that are taken
out. -/
lemma spread_mem_finish : .spread name directives ∈ (c.finish site).selections
    ↔ .spread name directives ∈ site.selections ∧ name ∉ c.duplicates := by
  refine Iff.trans spread_mem_dropSpreadsIn (and_congr_left fun _ => ?_)
  exact keepsSites_aliasRewriting.spread_mem_rewriteAll.trans spread_mem_typenameRewriting

/-- What a set spreads, it has spread before, or it has been inserted without directives. -/
lemma spread_mem_or_of_spread (hs : .spread name directives ∈ (c.spread site).selections) :
    .spread name directives ∈ site.selections ∨ directives = [] := by
  rw [spread, Site.rewrite] at hs
  dsimp only [spreadRewriting] at hs
  split at hs
  · rcases mem_insertSpreads hs with hs | heq | ⟨_, -, heq⟩
    · exact .inl (keepsSites_spreadRewriting.spread_mem_rewriteAll.mp hs)
    · cases heq
    · cases heq
      exact .inr rfl
  · exact .inl (keepsSites_spreadRewriting.spread_mem_rewriteAll.mp hs)

/-- A selection set on a node type that spreads anything spreads all node fragments. -/
lemma exists_spread_mem_spread (hcovers : schema.covers site.parent? type = true)
    (hspread : .spread name directives ∈ (c.spread site).selections) {other : String}
    (hother : other ∈ c.nodeFragments.map (·.name)) :
    ∃ directives, .spread other directives ∈ (c.spread site).selections := by
  rw [spread, Site.rewrite] at hspread ⊢
  dsimp only [spreadRewriting] at hspread ⊢
  split
  · exact exists_spread_mem_insertSpreads hother _
  · rename_i hany
    rw [if_neg hany] at hspread
    refine absurd ?_ hany
    rw [Bool.and_eq_true, List.any_eq_true]
    exact ⟨⟨_, hspread, rfl⟩, hcovers⟩

/-- What an operation that counts for its name spreads is within reach. -/
lemma mem_used_of_spread {o : Operation} (ho : o ∈ document.operations)
    (hlast : document.lastOperation o = o) (hname : name ∈ spreadNamesIn o.selections) :
    name ∈ c.assembled.used := by
  rw [c.operations_eq] at ho
  obtain ⟨o', ho', rfl⟩ := List.mem_map.mp ho
  have hlast' : document.lastOperation (o'.without c.duplicates)
      = (c.assembled.lastOperation o').without c.duplicates := by
    rw [Document.lastOperation, Document.lastOperation, c.operations_eq, ← List.map_reverse,
      List.find?_map]
    change ((c.assembled.operations.reverse.find? (·.name? == o'.name?)).map _).getD _ = _
    cases c.assembled.operations.reverse.find? (·.name? == o'.name?) <;> rfl
  rw [← hlast] at hname
  change name ∈ spreadNamesIn (document.lastOperation (o'.without c.duplicates)).selections at hname
  rw [hlast', Operation.without, spreadNamesIn_dropSpreadsIn] at hname
  refine List.mem_flatMap.mpr ⟨o', ho', Document.mem_reachable_of_mem ?_⟩
  exact (List.mem_filter.mp hname).1

end Compilation

end RemoteNodes
