import RemoteNodes.Proofs.Document.Sites
import RemoteNodes.Proofs.Node.Apart
/-!
What the stages that all selection sets go through make of single selections.

* `Schema.aliased`: the alias that a field has in the end.
* `Compilation.field_mem_finish`, `Compilation.exists_of_field_mem_finish`: **a field keeps all but
  its alias, and besides the fields that were there only a type name is selected**.
* `Compilation.inline_mem_finish`, `Compilation.exists_of_inline_mem_finish`: so it is with inline
  fragments.
* `Compilation.exists_of_meets_finish`: what is met in the end was met before.
-/

namespace RemoteNodes

/-! ### Aliases -/

/-- The alias of a field. -/
def Selection.alias? : Selection → Option String
  | .field alias? .. => alias?
  | _ => none

/-- The alias that a field has once the reserved names have got theirs. -/
def Schema.aliased (schema : Schema) (types : List String) (aliases : Aliases)
    (parent? : Option NamedType) (alias? : Option String) (name : String) : Option String :=
  ((aliasRewriting schema types aliases).field parent? (.field alias? name [] [] none)).alias?

lemma field_aliasRewriting (schema : Schema) (types : List String) (aliases : Aliases)
    (parent? : Option NamedType) (alias? : Option String) (name : String)
    (arguments : List Argument) (directives : List Directive)
    (selections? : Option (List Selection)) :
    (aliasRewriting schema types aliases).field parent?
        (.field alias? name arguments directives selections?)
      = .field (schema.aliased types aliases parent? alias? name) name arguments directives
        selections? := rfl

/-! ### Rewritten fields -/

section Rewriting

variable {schema : Schema} {r : Rewriting} {parent? : Option NamedType} {alias? : Option String}
  {name : String} {arguments : List Argument} {directives : List Directive}
  {selections? : Option (List Selection)} {site : Site}

/-- A field is rewritten with its set in its place. -/
lemma rewrite_field :
    (Selection.field alias? name arguments directives selections?).rewrite schema r parent?
    = r.field parent? (.field alias? name arguments directives (selections?.map fun ss =>
      (Site.rewrite schema r ⟨.field, schema.insideField? parent? name, ss⟩).selections)) := by
  cases selections? <;> rfl

/-- A field that comes out of a rewriting was a field of the same name, and had a set if it has
one. -/
lemma Rewriting.KeepsSites.exists_field (hr : r.KeepsSites) {s : Selection}
    (h : s.rewrite schema r parent? = .field alias? name arguments directives selections?) :
    ∃ alias?' before?, s = .field alias?' name arguments directives before?
      ∧ selections? = before?.map fun ss =>
        (Site.rewrite schema r ⟨.field, schema.insideField? parent? name, ss⟩).selections := by
  cases s with
  | field alias?' name' arguments' directives' before? =>
      rw [rewrite_field] at h
      obtain ⟨alias?'', halias⟩ := hr.field parent? alias?' name' arguments' directives'
        (before?.map fun ss =>
          (Site.rewrite schema r ⟨.field, schema.insideField? parent? name', ss⟩).selections)
      rw [halias] at h
      cases h
      exact ⟨alias?', before?, rfl, rfl⟩
  | spread _ _ | inline _ _ _ => rw [Selection.rewrite] at h; cases h

/-- What is rewritten stays where type names are added. -/
lemma mem_typenameRewriting {s : Selection} (hs : s ∈ site.selections) :
    s.rewrite schema typenameRewriting site.parent?
      ∈ (site.rewrite schema typenameRewriting).selections := by
  have hmem := List.mem_map_of_mem hs (f := (·.rewrite schema typenameRewriting site.parent?))
  rw [← rewriteAll_eq_map] at hmem
  rw [Site.rewrite]
  dsimp only [typenameRewriting]
  split
  · exact List.mem_cons_of_mem _ hmem
  · exact hmem

/-- Besides what is rewritten only a type name stands in the set of a field. -/
lemma exists_of_mem_typenameRewriting {s' : Selection}
    (h : s' ∈ (site.rewrite schema typenameRewriting).selections) :
    (∃ s ∈ site.selections, s.rewrite schema typenameRewriting site.parent? = s')
      ∨ s' = .plain "__typename" ∧ site.owner = .field := by
  rw [Site.rewrite] at h
  dsimp only [typenameRewriting] at h
  rw [← typenameRewriting, rewriteAll_eq_map] at h
  split at h
  · rename_i howner
    simp only [Bool.and_eq_true, beq_iff_eq] at howner
    exact (List.mem_cons.mp h).symm.imp List.mem_map.mp fun h => ⟨h, howner.1.1⟩
  · exact .inl (List.mem_map.mp h)

/-- What is rewritten is all that there is where aliases are given. -/
lemma mem_aliasRewriting {types : List String} {aliases : Aliases} {s' : Selection} :
    s' ∈ (site.rewrite schema (aliasRewriting schema types aliases)).selections
      ↔ ∃ s ∈ site.selections,
        s.rewrite schema (aliasRewriting schema types aliases) site.parent? = s' := by
  have hmap : (site.rewrite schema (aliasRewriting schema types aliases)).selections
      = site.selections.map (·.rewrite schema (aliasRewriting schema types aliases) site.parent?) :=
    rewriteAll_eq_map ..
  rw [hmap, List.mem_map]

/-- What is rewritten stays through both stages. -/
lemma mem_rewrite_rewrite {types : List String} {aliases : Aliases} {s : Selection}
    (hs : s ∈ site.selections) :
    (s.rewrite schema typenameRewriting site.parent?).rewrite schema
        (aliasRewriting schema types aliases) site.parent?
      ∈ ((site.rewrite schema typenameRewriting).rewrite schema
        (aliasRewriting schema types aliases)).selections :=
  mem_aliasRewriting.mpr ⟨_, mem_typenameRewriting hs, rfl⟩

end Rewriting

/-! ### The stages that all sets go through -/

namespace Compilation

variable {schema : Schema} {declarations : List NodeDeclaration} {sources : List String}
  {aliases : Aliases} {type : String} {document : Document}
  (c : Compilation schema declarations sources aliases type document)
  {site : Site} {alias? condition? : Option String} {name : String} {arguments : List Argument}
  {directives : List Directive} {selections? : Option (List Selection)} {ss : List Selection}

/-- A field keeps all but its alias. -/
lemma field_mem_finish
    (h : .field alias? name arguments directives selections? ∈ site.selections) :
    .field (schema.aliased (declarations.map (·.type)) aliases site.parent? alias? name) name
        arguments directives (selections?.map fun ss =>
          (c.finish ⟨.field, schema.insideField? site.parent? name, ss⟩).selections)
      ∈ (c.finish site).selections := by
  cases selections? <;> exact field_mem_dropSpreadsIn.mpr ⟨_, rfl, mem_rewrite_rewrite h⟩

/-- A field with a set keeps it, in its place. -/
lemma composite_mem_finish
    (h : .field alias? name arguments directives (some ss) ∈ site.selections) :
    .field (schema.aliased (declarations.map (·.type)) aliases site.parent? alias? name) name
        arguments directives
        (some (c.finish ⟨.field, schema.insideField? site.parent? name, ss⟩).selections)
      ∈ (c.finish site).selections :=
  c.field_mem_finish h

/-- Besides the fields that were there only a type name is selected, in the set of a field. -/
lemma exists_of_field_mem_finish
    (h : .field alias? name arguments directives selections? ∈ (c.finish site).selections) :
    (∃ alias?' before?, .field alias?' name arguments directives before? ∈ site.selections
        ∧ alias? = schema.aliased (declarations.map (·.type)) aliases site.parent? alias?' name
        ∧ selections? = before?.map fun ss =>
          (c.finish ⟨.field, schema.insideField? site.parent? name, ss⟩).selections)
      ∨ site.owner = .field ∧ name = "__typename" ∧ arguments = [] ∧ selections? = none
        ∧ alias? = schema.aliased (declarations.map (·.type)) aliases site.parent? none name := by
  obtain ⟨aliased?, hdropped, haliased⟩ := field_mem_dropSpreadsIn.mp h
  obtain ⟨s', hs', heq⟩ := mem_aliasRewriting.mp haliased
  obtain ⟨alias?', typed?, rfl, rfl⟩ := keepsSites_aliasRewriting.exists_field heq
  rw [rewrite_field, field_aliasRewriting] at heq
  cases heq
  cases hdropped
  rcases exists_of_mem_typenameRewriting hs' with ⟨s, hs, heq⟩ | ⟨heq, howner⟩
  · obtain ⟨alias?'', before?, rfl, rfl⟩ := keepsSites_typenameRewriting.exists_field heq
    rw [rewrite_field] at heq
    cases heq
    refine .inl ⟨alias?', before?, hs, rfl, ?_⟩
    cases before? <;> rfl
  · cases heq
    exact .inr ⟨howner, rfl, rfl, rfl, rfl⟩

/-- A field with a set was there before, with a set in the same place. -/
lemma exists_of_composite_mem_finish
    (h : .field alias? name arguments directives (some ss) ∈ (c.finish site).selections) :
    ∃ alias?' before, .field alias?' name arguments directives (some before) ∈ site.selections
      ∧ alias? = schema.aliased (declarations.map (·.type)) aliases site.parent? alias?' name
      ∧ ss = (c.finish ⟨.field, schema.insideField? site.parent? name, before⟩).selections := by
  rcases c.exists_of_field_mem_finish h with ⟨alias?', before?, hs, halias, heq⟩ | ⟨-, -, -, heq, -⟩
  · obtain ⟨before, rfl, rfl⟩ := Option.map_eq_some_iff.mp heq.symm
    exact ⟨alias?', before, hs, halias, rfl⟩
  · cases heq

/-- An inline fragment stays, with its set in its place. -/
lemma inline_mem_finish (h : .inline condition? directives ss ∈ site.selections) :
    .inline condition? directives
        (c.finish ⟨.inline, schema.insideInline? site.parent? condition?, ss⟩).selections
      ∈ (c.finish site).selections := by
  exact inline_mem_dropSpreadsIn.mpr ⟨_, rfl, mem_rewrite_rewrite h⟩

/-- An inline fragment was there before. -/
lemma exists_of_inline_mem_finish
    (h : .inline condition? directives ss ∈ (c.finish site).selections) :
    ∃ before, .inline condition? directives before ∈ site.selections
      ∧ ss = (c.finish ⟨.inline, schema.insideInline? site.parent? condition?, before⟩).selections
      := by
  obtain ⟨aliased, hdropped, haliased⟩ := inline_mem_dropSpreadsIn.mp h
  obtain ⟨s', hs', heq⟩ := mem_aliasRewriting.mp haliased
  obtain ⟨typed, rfl, rfl⟩ := keepsSites_aliasRewriting.exists_of_inline heq
  cases hdropped
  rcases exists_of_mem_typenameRewriting hs' with ⟨s, hs, heq⟩ | ⟨heq, -⟩
  · obtain ⟨before, rfl, rfl⟩ := keepsSites_typenameRewriting.exists_of_inline heq
    exact ⟨before, hs, rfl⟩
  · cases heq

/-- What is met in the end was met before the stages that all sets go through. -/
theorem exists_of_meets_finish {references : References} {t : NamedType}
    (h : schema.Meets references (c.finish site) t ss) :
    ∃ before, schema.Meets references site t before
      ∧ ss = (c.finish ⟨.field, some t, before⟩).selections := by
  generalize hstart : c.finish site = start at h
  induction h generalizing site with
  | field hs hname htype =>
      subst hstart
      obtain ⟨_, before, hbefore, -, rfl⟩ := c.exists_of_composite_mem_finish hs
      refine ⟨before, .field hbefore hname htype, ?_⟩
      rw [show schema.insideField? site.parent? _ = some _ from htype]
  | inline hs hpart h ih =>
      subst hstart
      obtain ⟨before, hbefore, rfl⟩ := c.exists_of_inline_mem_finish hs
      obtain ⟨first, hfirst, heq⟩ := @ih ⟨.inline, _, before⟩ rfl
      exact ⟨first, .inline hbefore hpart hfirst, heq⟩
  | inside hs hname htype hother h ih =>
      subst hstart
      obtain ⟨_, before, hbefore, -, rfl⟩ := c.exists_of_composite_mem_finish hs
      have htype : schema.insideField? site.parent? _ = some _ := htype
      obtain ⟨first, hfirst, heq⟩ := @ih ⟨.field, _, before⟩ (by rw [htype]; rfl)
      exact ⟨first, .inside hbefore hname htype hother hfirst, heq⟩

end Compilation

end RemoteNodes
