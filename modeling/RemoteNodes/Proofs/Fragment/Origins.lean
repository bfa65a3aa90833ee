import RemoteNodes.Proofs.Fragment.Opening
import RemoteNodes.Proofs.Selection.Keys
/-!
Where the selection sets of inlined selections come from: from the sets that inlining starts with
and those of the fragments that it opens.

* `Inlining.Origin`: these sets, in their places; `Inlining.Inlines`: what becomes of one.
* `Inlining.exists_origin`: **every set of what inlining makes has an origin**.
* `Inlining.exists_inlined`: **and every origin becomes a set of it**.
* `discriminating`: puts the field that cuts cycles in the place of every spread.
* `fieldsWithin_of_inlineAll`, `fieldsWithin_discriminating`: inlining leaves the fields of a set,
  and adds to them at most the field that cuts cycles, in the place of a spread.
-/

namespace RemoteNodes

open Relation

/-- The places of selection sets are told by what they belong to in turn. -/
lemma Site.Holds.trans {schema : Schema} {site inside innermost : Site}
    (h : site.Holds schema inside) (h' : inside.Holds schema innermost) :
    site.Holds schema innermost := by
  induction h with
  | refl => exact h'
  | field hs _ ih => exact .field hs (ih h')
  | inline hs _ ih => exact .inline hs (ih h')

namespace Inlining

/-- A fragment that is opened under a name stands in an inline fragment on the type of the name. -/
def opened (schema : Schema) (name : String) (f : Fragment) : Site :=
  ⟨.inline, schema.composite? name, f.selections⟩

/-- A set that inlining comes across: one that it starts with, or one of a fragment that it opens.
-/
def Origin (x : Inlining) (schema : Schema) (around : List String) (start site : Site) : Prop :=
  start.Holds schema site ∨ ∃ name f, x.Opens around (spreadNamesIn start.selections) name
    ∧ x.find? name = some f ∧ (opened schema name f).Holds schema site

/-- A set is what inlining makes of another one, in the same place. -/
def Inlines (x : Inlining) (site site' : Site) : Prop :=
  site'.parent? = site.parent?
    ∧ ∃ around, x.inlineAll around site.selections = .ok site'.selections

variable {schema : Schema} {x : Inlining} {around : List String} {name : String} {f : Fragment}
  {s s' : Selection} {ss ss' : List Selection} {start start' site site' : Site}

lemma Opens.mono {names names' : List String} (h : x.Opens around names name)
    (hnames : names ⊆ names') : x.Opens around names' name := by
  obtain ⟨first, hfirst, h⟩ := h
  exact ⟨first, hnames hfirst, h⟩

lemma mem_of_inlineAll (h : x.inlineAll around ss = .ok ss') (hs : s' ∈ ss') :
    ∃ s ∈ ss, x.inline around s = .ok s' := by
  rw [inlineAll_eq_mapM] at h
  exact (mem_of_mapM h).2 s' hs

/-- A field with selections comes from one with selections. -/
lemma exists_of_inline_eq_field {alias? : Option String} {arguments : List Argument}
    {directives : List Directive}
    (h : x.inline around s = .ok (.field alias? name arguments directives (some ss'))) :
    ∃ ss, s = .field alias? name arguments directives (some ss)
      ∧ x.inlineAll around ss = .ok ss' := by
  cases s with
  | field alias?' name' arguments' directives' selections? =>
      cases selections? with
      | none =>
          rw [inline] at h
          cases h
      | some ss =>
          obtain ⟨inner, hinner, heq⟩ := exists_of_inline_field h
          cases heq
          exact ⟨ss, rfl, hinner⟩
  | spread fragment directives' =>
      by_cases hmem : fragment ∈ around
      · rw [inline_of_mem hmem] at h
        cases h
      · obtain ⟨_, _, -, -, heq⟩ := exists_opened h hmem
        cases heq
  | inline condition? directives' ss =>
      obtain ⟨_, -, heq⟩ := exists_of_inline_inline h
      cases heq

/-- An inline fragment comes from one, or from the spread of a fragment that is opened. -/
lemma exists_of_inline_eq_inline {condition? : Option String} {directives : List Directive}
    (h : x.inline around s = .ok (.inline condition? directives ss')) :
    (∃ ss, s = .inline condition? directives ss ∧ x.inlineAll around ss = .ok ss')
      ∨ ∃ name directives' f, s = .spread name directives' ∧ condition? = some name
        ∧ name ∉ around ∧ x.find? name = some f
        ∧ x.inlineAll (name :: around) f.selections = .ok ss' := by
  cases s with
  | field alias? name arguments directives' selections? =>
      cases selections? with
      | none =>
          rw [inline] at h
          cases h
      | some ss =>
          obtain ⟨_, -, heq⟩ := exists_of_inline_field h
          cases heq
  | spread fragment directives' =>
      by_cases hmem : fragment ∈ around
      · rw [inline_of_mem hmem] at h
        cases h
      · obtain ⟨f, inner, hf, hinner, heq⟩ := exists_opened h hmem
        cases heq
        exact .inr ⟨fragment, directives', f, rfl, rfl, hmem, hf, hinner⟩
  | inline condition?' directives' ss =>
      obtain ⟨inner, hinner, heq⟩ := exists_of_inline_inline h
      cases heq
      exact .inl ⟨ss, rfl, hinner⟩

/-! ### Origins -/

/-- What inlining comes across inside a selection it comes across in the set. -/
lemma Origin.of_mem (h : x.Origin schema around start site) (hs : s ∈ start'.selections)
    (hspreads : s.spreadNames = spreadNamesIn start.selections)
    (hholds : ∀ site, start.Holds schema site → start'.Holds schema site) :
    x.Origin schema around start' site := by
  refine h.imp (hholds site) ?_
  rintro ⟨name, f, hopens, hf, h⟩
  refine ⟨name, f, hopens.mono fun first hfirst => ?_, hf, h⟩
  exact mem_spreadNamesIn.mpr ⟨s, hs, hspreads ▸ hfirst⟩

/-- What inlining comes across in a fragment that it opens it comes across in the set. -/
lemma Origin.of_opened {directives : List Directive}
    (hs : .spread name directives ∈ start.selections) (hname : name ∉ around)
    (hf : x.find? name = some f)
    (h : x.Origin schema (name :: around) (opened schema name f) site) :
    x.Origin schema around start site := by
  have hspread : [name] ⊆ spreadNamesIn start.selections := by
    refine List.cons_subset.mpr ⟨mem_spreadNamesIn.mpr ⟨_, hs, ?_⟩, List.nil_subset _⟩
    simp [Selection.spreadNames]
  rcases h with h | ⟨other, g, hopens, hg, h⟩
  · exact .inr ⟨name, f, ((opens_singleton hname hf).mpr (.inl rfl)).mono hspread, hf, h⟩
  · exact .inr ⟨other, g, ((opens_singleton hname hf).mpr (.inr hopens)).mono hspread, hg, h⟩

/-- **Every set of what inlining makes has an origin.** -/
theorem exists_origin (hstart : start'.parent? = start.parent?)
    (h : x.inlineAll around start.selections = .ok start'.selections)
    (hholds : start'.Holds schema site') :
    ∃ site, x.Origin schema around start site ∧ x.Inlines site site' := by
  induction hholds generalizing around start with
  | refl => exact ⟨start, .inl (.refl start), hstart, around, h⟩
  | @field outer site' alias? name arguments directives inner hs _ ih =>
      obtain ⟨s, hmem, hs⟩ := mem_of_inlineAll h hs
      obtain ⟨before, rfl, hinner⟩ := exists_of_inline_eq_field hs
      obtain ⟨site, horigin, hinlines⟩ :=
        @ih around ⟨.field, schema.insideField? start.parent? name, before⟩ (by rw [hstart]) hinner
      refine ⟨site, horigin.of_mem hmem (by rw [Selection.spreadNames]) ?_, hinlines⟩
      exact fun _ => .field hmem
  | @inline outer site' condition? directives inner hs _ ih =>
      obtain ⟨s, hmem, hs⟩ := mem_of_inlineAll h hs
      rcases exists_of_inline_eq_inline hs with
        ⟨before, rfl, hinner⟩ | ⟨name, directives', f, rfl, rfl, hname, hf, hinner⟩
      · obtain ⟨site, horigin, hinlines⟩ := @ih around
          ⟨.inline, schema.insideInline? start.parent? condition?, before⟩ (by rw [hstart]) hinner
        refine ⟨site, horigin.of_mem hmem (by rw [Selection.spreadNames]) ?_, hinlines⟩
        exact fun _ => .inline hmem
      · obtain ⟨site, horigin, hinlines⟩ := @ih (name :: around) (opened schema name f) rfl hinner
        exact ⟨site, horigin.of_opened hmem hname hf, hinlines⟩

/-- A set that inlining starts with becomes a set of what it makes. -/
lemma exists_inlined_of_holds (hstart : start'.parent? = start.parent?)
    (h : x.inlineAll around start.selections = .ok start'.selections)
    (hholds : start.Holds schema site) :
    ∃ site', start'.Holds schema site' ∧ x.Inlines site site' := by
  induction hholds generalizing start' with
  | refl => exact ⟨start', .refl start', hstart, around, h⟩
  | @field outer site alias? name arguments directives inner hs _ ih =>
      obtain ⟨s', hs', hmem⟩ := exists_mem_inlineAll h hs
      obtain ⟨after, hafter, rfl⟩ := exists_of_inline_field hs'
      obtain ⟨site', hholds, hinlines⟩ :=
        @ih ⟨.field, schema.insideField? start'.parent? name, after⟩ (by rw [hstart]) hafter
      exact ⟨site', .field hmem hholds, hinlines⟩
  | @inline outer site condition? directives inner hs _ ih =>
      obtain ⟨s', hs', hmem⟩ := exists_mem_inlineAll h hs
      obtain ⟨after, hafter, rfl⟩ := exists_of_inline_inline hs'
      obtain ⟨site', hholds, hinlines⟩ := @ih
        ⟨.inline, schema.insideInline? start'.parent? condition?, after⟩ (by rw [hstart]) hafter
      exact ⟨site', .inline hmem hholds, hinlines⟩

/-- A fragment that inlining opens stands, inlined, in what it makes. -/
lemma exists_inlined_of_opens (h : x.inlineAll around ss = .ok ss')
    (hname : x.Opens around (spreadNamesIn ss) name) (hf : x.find? name = some f)
    (hsub : ss' ⊆ site'.selections) :
    ∃ around' inner, x.inlineAll around' f.selections = .ok inner
      ∧ site'.Holds schema ⟨.inline, schema.composite? name, inner⟩ := by
  induction around, ss using Inlining.inlineAll.induct x
    (fun around s => ∀ s' (site' : Site), x.inline around s = .ok s' →
      x.Opens around s.spreadNames name → s' ∈ site'.selections → ∃ around' inner,
        x.inlineAll around' f.selections = .ok inner
          ∧ site'.Holds schema ⟨.inline, schema.composite? name, inner⟩)
    generalizing ss' site' with
  | case1 around alias? name' as ds s' site' h hname _ =>
      rw [Selection.spreadNames] at hname
      exact absurd hname not_opens_nil
  | case2 around alias? name' as ds ss ih s' site' h hname hmem =>
      obtain ⟨ss', hinner, rfl⟩ := exists_of_inline_field h
      rw [Selection.spreadNames] at hname
      obtain ⟨around', inner, hopened, hholds⟩ := @ih ss'
        ⟨.field, schema.insideField? site'.parent? name', ss'⟩ hinner hname (List.Subset.refl _)
      exact ⟨around', inner, hopened, .field hmem hholds⟩
  | case3 around condition? ds ss ih s' site' h hname hmem =>
      obtain ⟨ss', hinner, rfl⟩ := exists_of_inline_inline h
      rw [Selection.spreadNames] at hname
      obtain ⟨around', inner, hopened, hholds⟩ := @ih ss'
        ⟨.inline, schema.insideInline? site'.parent? condition?, ss'⟩ hinner hname
        (List.Subset.refl _)
      exact ⟨around', inner, hopened, .inline hmem hholds⟩
  | case4 around name' ds hopen s' site' h hname _ =>
      rw [Selection.spreadNames] at hname
      exact absurd hname (not_opens_of_mem (by simpa using hopen))
  | case5 around name' ds hopen hf' s' site' h hname _ =>
      rw [inline_of_find?_eq_none (by simpa using hopen) hf'] at h
      cases h
  | case6 around name' ds hopen g hg ih s' site' h hname hmem =>
      have hclosed : name' ∉ around := by simpa using hopen
      obtain ⟨g', ss', hg', hinner, rfl⟩ := exists_opened h hclosed
      obtain rfl := Option.some.inj (hg.symm.trans hg')
      rw [Selection.spreadNames, opens_singleton hclosed hg] at hname
      rcases hname with rfl | hname
      · obtain rfl := Option.some.inj (hf.symm.trans hg)
        exact ⟨_, ss', hinner, .inline hmem (.refl _)⟩
      · obtain ⟨around', inner, hopened, hholds⟩ := @ih ss'
          ⟨.inline, schema.composite? name', ss'⟩ hinner hname (List.Subset.refl _)
        exact ⟨around', inner, hopened, .inline hmem hholds⟩
  | case7 => exact absurd hname not_opens_nil
  | case8 around s ss fault hfault =>
      rw [inlineAll, hfault] at h
      cases h
  | case9 around s ss _ _ ih ihrest =>
      obtain ⟨s', rest, hs', hrest, rfl⟩ := exists_of_inlineAll_cons h
      obtain ⟨hfirst, hsub⟩ := List.cons_subset.mp hsub
      rw [spreadNamesIn, opens_append] at hname
      rcases hname with hname | hname
      · exact ih s' site' hs' hname hfirst
      · exact ihrest hrest hname hsub

/-- **Every origin becomes a set of what inlining makes.** -/
theorem exists_inlined (hstart : start'.parent? = start.parent?)
    (h : x.inlineAll around start.selections = .ok start'.selections)
    (hsite : x.Origin schema around start site) :
    ∃ site', start'.Holds schema site' ∧ x.Inlines site site' := by
  rcases hsite with hholds | ⟨name, f, hopens, hf, hholds⟩
  · exact exists_inlined_of_holds hstart h hholds
  · obtain ⟨around', inner, hinner, hopened⟩ : ∃ around' inner,
        x.inlineAll around' f.selections = .ok inner
          ∧ start'.Holds schema ⟨.inline, schema.composite? name, inner⟩ :=
      exists_inlined_of_opens h hopens hf (List.Subset.refl _)
    obtain ⟨site', hsite', hinlines⟩ := @exists_inlined_of_holds schema x around'
      (opened schema name f) ⟨.inline, schema.composite? name, inner⟩ site rfl hinner hholds
    exact ⟨site', hopened.trans hsite', hinlines⟩

/-! ### Fields -/

/-- Inlining leaves the fields of a set as they are, up to their selections. -/
lemma fieldsWithin_of_inlineAll (h : x.inlineAll around ss = .ok ss') : FieldsWithin ss ss' := by
  intro alias? name arguments directives selections? hs
  obtain ⟨s', hs', hmem⟩ := exists_mem_inlineAll h hs
  cases selections? with
  | none =>
      rw [inline] at hs'
      cases hs'
      exact ⟨_, _, hmem⟩
  | some inner =>
      obtain ⟨inner', -, rfl⟩ := exists_of_inline_field hs'
      exact ⟨_, _, hmem⟩

end Inlining

/-- Every spread gives way to the field that cuts cycles. -/
def discriminating (aliases : Aliases) : Rewriting where
  set _ _ ss := ss.map fun
    | .spread .. => .field (aliases.alias? "__typename") "__typename" [] [] none
    | s => s

section Discriminating

variable {schema : Schema} {aliases : Aliases} {site : Site} {ss : List Selection}

lemma keepsSites_discriminating : (discriminating aliases).KeepsSites where
  field _ alias? _ _ _ _ := ⟨alias?, rfl⟩
  set _ _ ss s hs := by
    obtain ⟨s', hs', rfl⟩ := List.mem_map.mp hs
    cases s' with
    | field | inline => exact .inl hs'
    | spread => exact .inr (by rw [Selection.sets])

lemma leavesSets_discriminating : (discriminating aliases).LeavesSets := by
  intro owner parent? ss s hs hsets
  refine List.mem_map.mpr ⟨s, hs, ?_⟩
  cases s with
  | field | inline => rfl
  | spread => exact absurd rfl hsets

/-- A field stays in a set in which spreads give way. -/
lemma fieldsWithin_rewrite_discriminating :
    FieldsWithin site.selections (site.rewrite schema (discriminating aliases)).selections := by
  intro alias? name arguments directives selections? hs
  have hmem := List.mem_map_of_mem
    (f := fun s => s.rewrite schema (discriminating aliases) site.parent?) hs
  rw [← rewriteAll_eq_map] at hmem
  cases selections? <;>
  · rw [Selection.rewrite] at hmem
    exact ⟨_, _, List.mem_map.mpr ⟨_, hmem, rfl⟩⟩

/-- A set in which spreads give way has no other fields than before, if it spreads nothing. -/
lemma fieldsWithin_of_rewrite_discriminating
    (hspread : ∀ name directives, .spread name directives ∉ site.selections) :
    FieldsWithin (site.rewrite schema (discriminating aliases)).selections site.selections := by
  intro alias? name arguments directives selections? hs
  obtain ⟨s', hs', heq⟩ := List.mem_map.mp hs
  rw [rewriteAll_eq_map] at hs'
  obtain ⟨s, hmem, rfl⟩ := List.mem_map.mp hs'
  cases s with
  | field alias?' name' arguments' directives' selections?' =>
      cases selections?' <;>
      · rw [Selection.rewrite] at heq
        cases heq
        exact ⟨_, _, hmem⟩
  | spread fragment directives' => exact absurd hmem (hspread fragment directives')
  | inline condition? directives' inner =>
      rw [Selection.rewrite] at heq
      cases heq

/-- Inlining adds to the fields of a set at most the one that cuts cycles. -/
lemma Inlining.fieldsWithin_discriminating {x : Inlining} {around : List String}
    (h : x.inlineAll around site.selections = .ok ss) :
    FieldsWithin ss (site.rewrite schema (discriminating x.aliases)).selections := by
  intro alias? name arguments directives selections? hs'
  obtain ⟨s, hs, hinline⟩ := mem_of_inlineAll h hs'
  cases s with
  | field alias?' name' arguments' directives' selections?' =>
      cases selections?' with
      | none =>
          rw [Inlining.inline] at hinline
          cases hinline
          exact fieldsWithin_rewrite_discriminating _ _ _ _ _ hs
      | some inner =>
          obtain ⟨_, -, heq⟩ := exists_of_inline_field hinline
          cases heq
          exact fieldsWithin_rewrite_discriminating _ _ _ _ _ hs
  | spread fragment directives' =>
      by_cases hmem : fragment ∈ around
      · rw [inline_of_mem hmem] at hinline
        cases hinline
        refine ⟨[], none, List.mem_map.mpr ⟨.spread fragment directives', ?_, rfl⟩⟩
        rw [rewriteAll_eq_map]
        exact List.mem_map.mpr ⟨_, hs, by rw [Selection.rewrite]⟩
      · obtain ⟨_, _, -, -, heq⟩ := exists_opened hinline hmem
        cases heq
  | inline condition? directives' inner =>
      obtain ⟨_, -, heq⟩ := exists_of_inline_inline hinline
      cases heq

/-- Where nothing is spread nothing gives way. -/
lemma rewrite_discriminating_of_no_spread {owner : Owner} {parent? : Option NamedType}
    (h : spreadNamesIn ss = []) :
    (Site.rewrite schema (discriminating aliases) ⟨owner, parent?, ss⟩).selections = ss := by
  have hset {owner : Owner} {parent? : Option NamedType} {ss : List Selection}
      (h : spreadNamesIn ss = [])
      (ih : ∀ s ∈ ss, ∀ parent?, s.spreadNames = [] →
        s.rewrite schema (discriminating aliases) parent? = s) :
      (Site.rewrite schema (discriminating aliases) ⟨owner, parent?, ss⟩).selections = ss := by
    rw [spreadNamesIn_eq_flatMap, List.flatMap_eq_nil_iff] at h
    simp only [Site.rewrite, discriminating, rewriteAll_eq_map, List.map_map]
    refine (List.map_congr_left fun s hs => ?_).trans (List.map_id ss)
    have hs' := ih s hs parent? (h s hs)
    simp only [discriminating] at hs'
    rw [Function.comp_apply, hs']
    cases s with
    | field | inline => rfl
    | spread fragment directives => cases h _ hs
  have heach (s : Selection) : ∀ parent?, s.spreadNames = [] →
      s.rewrite schema (discriminating aliases) parent? = s := by
    induction s using Selection.induct with
    | leaf | spread =>
        intro _ _
        simp only [Selection.rewrite, discriminating]
    | composite alias? name arguments directives inner ih =>
        intro parent? hs
        have hinner := @hset .field (schema.insideField? parent? name) inner hs ih
        rw [Selection.rewrite]
        exact congrArg (fun inner => Selection.field alias? name arguments directives (some inner))
          hinner
    | inline condition? directives inner ih =>
        intro parent? hs
        have hinner := @hset .inline (schema.insideInline? parent? condition?) inner hs ih
        rw [Selection.rewrite]
        exact congrArg (Selection.inline condition? directives) hinner
  exact hset h fun s _ => heach s

end Discriminating

end RemoteNodes
