import Mathlib.Tactic
import RemoteNodes.Proofs.Document.Sites
import RemoteNodes.Proofs.Node.Shallow
/-!
Fields in compiled fragments that stand apart from references, and what their selection sets are.

* `Schema.Meets`: a field of a known type, met from a selection set on a way that does not go
  through the selections of references.
* `exists_replacement_of_meets`: **what such a field selects has taken the place of what was
  selected before**, for its own type or for one above it; `Fragment.exists_replacement_of_meets`.
-/

namespace RemoteNodes

/-- From a selection set a field of a composite type is met with its own set, on a way that does not
go through the selections of references: not into a field on whose type, or on one above it, a
reference is made, and not from the set of a field into its part for a node type. -/
inductive Schema.Meets (schema : Schema) (references : References) :
    Site → NamedType → List Selection → Prop
  | field {site : Site} {t : NamedType} {alias? : Option String} {name : String}
      {arguments : List Argument} {directives : List Directive} {inner : List Selection}
      (hs : .field alias? name arguments directives (some inner) ∈ site.selections)
      (hname : isMetaName name = false)
      (htype : schema.insideField? site.parent? name = some t) :
      Meets schema references site t inner
  | inline {site : Site} {t : NamedType} {condition? : Option String} {directives : List Directive}
      {within inner : List Selection}
      (hs : .inline condition? directives within ∈ site.selections)
      (hpart : site.owner = .field → ∀ type, condition? = some type → schema.IsObject type →
        Keyed.get? references type = none)
      (h : Meets schema references
        ⟨.inline, schema.insideInline? site.parent? condition?, within⟩ t inner) :
      Meets schema references site t inner
  | inside {site : Site} {t between : NamedType} {alias? : Option String} {name : String}
      {arguments : List Argument} {directives : List Directive} {within inner : List Selection}
      (hs : .field alias? name arguments directives (some within) ∈ site.selections)
      (hname : isMetaName name = false)
      (htype : schema.insideField? site.parent? name = some between)
      (hother : ∀ above, schema.Applies above between.name → Keyed.get? references above = none)
      (h : Meets schema references ⟨.field, some between, within⟩ t inner) :
      Meets schema references site t inner

variable {schema : Schema} {references : References} {customs : List Fragment}
  {owner : Owner} {parent? : Option NamedType} {t : NamedType} {ss ss' inner : List Selection}

namespace Schema.Meets

/-- What is met from a set is met from one of its members. -/
lemma exists_mem (h : schema.Meets references ⟨owner, parent?, ss⟩ t inner) :
    ∃ s ∈ ss, schema.Meets references ⟨owner, parent?, [s]⟩ t inner := by
  cases h with
  | field hs hname htype => exact ⟨_, hs, .field (List.mem_singleton_self _) hname htype⟩
  | inline hs hpart h => exact ⟨_, hs, .inline (List.mem_singleton_self _) hpart h⟩
  | inside hs hname htype hother h =>
      exact ⟨_, hs, .inside (List.mem_singleton_self _) hname htype hother h⟩

lemma mono (h : schema.Meets references ⟨owner, parent?, ss⟩ t inner) (hsub : ss ⊆ ss') :
    schema.Meets references ⟨owner, parent?, ss'⟩ t inner := by
  cases h with
  | field hs hname htype => exact .field (hsub hs) hname htype
  | inline hs hpart h => exact .inline (hsub hs) hpart h
  | inside hs hname htype hother h => exact .inside (hsub hs) hname htype hother h

lemma of_append (ss ss' : List Selection)
    (h : schema.Meets references ⟨owner, parent?, ss ++ ss'⟩ t inner) :
    schema.Meets references ⟨owner, parent?, ss⟩ t inner
      ∨ schema.Meets references ⟨owner, parent?, ss'⟩ t inner := by
  obtain ⟨s, hs, h⟩ := h.exists_mem
  exact (List.mem_append.mp hs).imp (fun hs => h.mono (by simpa using hs))
    fun hs => h.mono (by simpa using hs)

/-- Nothing is met from the empty set. -/
lemma not_nil : ¬ schema.Meets references ⟨owner, parent?, []⟩ t inner := by
  intro h
  obtain ⟨s, hs, -⟩ := h.exists_mem
  cases hs

end Schema.Meets

/-! ### Parts of split sets -/

namespace ShallowRewriting

variable {r : ShallowRewriting} {p : NamedType}

/-- What is met from the selections kept for a type is met from all of them. -/
lemma meets_of_keptFor (hp : r.schema.composite? p.name = some p)
    (h : r.schema.Meets references ⟨.inline, some p, r.keptFor p.name ss⟩ t inner) :
    r.schema.Meets references ⟨.inline, some p, ss⟩ t inner := by
  induction ss using keptFor.induct with
  | case1 =>
      rw [keptFor] at h
      exact h
  | case2 alias? name arguments directives selections? ss ih =>
      rw [keptFor] at h
      rcases Schema.Meets.of_append [_] _ h with h | h
      · exact h.mono (by simp)
      · exact (ih h).mono (List.subset_cons_self _ _)
  | case3 directives within ss ihwithin ih =>
      rw [keptFor] at h
      rcases Schema.Meets.of_append _ _ h with h | h
      · exact .inline List.mem_cons_self (by simp) (ihwithin h)
      · exact (ih h).mono (List.subset_cons_self _ _)
  | case4 condition directives within ss ihwithin ih =>
      rw [keptFor] at h
      rcases Schema.Meets.of_append _ _ h with h | h
      · split at h
        · rename_i hcondition
          refine .inline List.mem_cons_self (by simp) ?_
          rw [Schema.insideInline?, beq_iff_eq.mp hcondition, hp]
          exact ihwithin h
        · split at h
          · exact h.mono (by simp)
          · exact absurd h Schema.Meets.not_nil
      · exact (ih h).mono (List.subset_cons_self _ _)
  | case5 fragment directives ss ih =>
      rw [keptFor] at h
      rcases Schema.Meets.of_append _ _ h with h | h
      · split at h
        · exact h.mono (by simp)
        · exact absurd h Schema.Meets.not_nil
      · exact (ih h).mono (List.subset_cons_self _ _)

/-- What is met from a split set is met from what was split, made on a possible type that is no node
type. -/
lemma exists_of_meets_split (hschema : r.schema.Conforms) {u : NamedType} (hu : u ∈ r.schema.types)
    (h : r.schema.Meets r.references ⟨.field, parent?, r.split u ss⟩ t inner) :
    ∃ p ∈ r.schema.possibleTypes u,
      r.schema.Meets r.references ⟨.inline, some p, ss⟩ t inner := by
  obtain ⟨s, hs, h⟩ := h.exists_mem
  rcases List.mem_cons.mp hs with rfl | hs
  · cases h with
    | field hs _ _ | inline hs _ _ | inside hs _ _ _ _ => cases List.mem_singleton.mp hs
  · obtain ⟨p, hp, hpart⟩ := List.mem_filterMap.mp hs
    split at hpart
    · cases hpart
    · cases hpart
      cases h with
      | inline hs hreference h =>
          cases List.mem_singleton.mp hs
          obtain ⟨hcomposite, hobject, -⟩ := hschema.of_mem_possibleTypes hu hp
          have hnone := hreference rfl p.name rfl
            ⟨p, (Schema.composite?_eq_some.mp hcomposite).1, hobject⟩
          rw [Schema.insideInline?, hcomposite, selectionsFor_eq hnone] at h
          exact ⟨p, hp, meets_of_keptFor hcomposite (h.mono (List.filter_subset_self _))⟩
      | field hs _ _ | inside hs _ _ _ _ => cases List.mem_singleton.mp hs

end ShallowRewriting

/-! ### Rewritten selections -/

/-- A condition applies to the types that lie under the one that it names. -/
lemma Schema.Below.exists_applies {name : String} {sup? : Option NamedType}
    (h : schema.Below (some t) sup?) (hsup : sup? = schema.composite? name) :
    schema.type? t.name = some t ∧ ∃ u, schema.composite? name = some u
      ∧ schema.Applies name t.name := by
  rcases h with h | ⟨u, o, hu, ho, -, htype, hsub⟩
  · rw [← h] at hsup
    have htype := (Schema.composite?_eq_some.mp hsup.symm).1
    obtain rfl := Schema.name_of_type? htype
    exact ⟨htype, t, hsup.symm, .inl rfl⟩
  · obtain rfl := Option.some.inj ho
    rw [hsup] at hu
    exact ⟨htype, u, hu, .inr ⟨u, (Schema.composite?_eq_some.mp hu).1, hsub⟩⟩

section Rewritten

variable (hschema : schema.Conforms)
include hschema

/-- **What a field selects that is met from a rewritten selection has taken the place of what was
selected before**, if types can be followed there. The field may be met on a type under the one
that the selection was made on; then it has a type under the one that counted. -/
theorem exists_replacement_of_meets {s : Selection} {sub? sup? : Option NamedType}
    (hs : s.Tracked schema sup?) (hfilled : s.Obeys .filled) (hbelow : schema.Below sub? sup?)
    (h : schema.Meets references
      ⟨owner, sub?, [s.rewrite schema (shallowing schema references customs).rewriting sup?]⟩
      t inner) :
    ∃ type before, inner = (shallowing schema references customs).replacement type before
      ∧ schema.Below (some t) (schema.composite? type.namedType) := by
  have hset {owner : Owner} {sub? sup? : Option NamedType} {ss : List Selection}
      (ih : ∀ s ∈ ss, ∀ owner sub? sup?, s.Tracked schema sup? → s.Obeys .filled →
        schema.Below sub? sup? → schema.Meets references
          ⟨owner, sub?, [s.rewrite schema (shallowing schema references customs).rewriting sup?]⟩
          t inner →
        ∃ type before, inner = (shallowing schema references customs).replacement type before
          ∧ schema.Below (some t) (schema.composite? type.namedType))
      (hss : TrackedIn schema sup? ss) (hfilled : SetObeys .filled ss)
      (hbelow : schema.Below sub? sup?)
      (h : schema.Meets references
        ⟨owner, sub?, rewriteAll schema (shallowing schema references customs).rewriting sup? ss⟩
        t inner) :
      ∃ type before, inner = (shallowing schema references customs).replacement type before
        ∧ schema.Below (some t) (schema.composite? type.namedType) := by
    obtain ⟨s', hs', h⟩ := h.exists_mem
    rw [rewriteAll_eq_map] at hs'
    obtain ⟨s, hs, rfl⟩ := List.mem_map.mp hs'
    exact ih s hs owner sub? sup? (trackedIn_iff.mp hss s hs) (hfilled.2 s hs) hbelow h
  induction s using Selection.induct generalizing owner sub? sup? with
  | leaf alias? name arguments directives =>
      cases h with
      | field hs _ _ | inline hs _ _ | inside hs _ _ _ _ => cases List.mem_singleton.mp hs
  | composite alias? name arguments directives ss ih =>
      have hfilled := Selection.obeys_field.mp hfilled
      have hne : ss ≠ [] := (setObeys_filled.mp hfilled).1
      obtain ⟨replaced, hreplaced, -⟩ := exists_rewrite_composite schema references customs sup?
        alias? name arguments directives ss
      -- a field that has a type below has one above, and has got the replacement for it
      have htyped {u : NamedType} (hname : isMetaName name = false)
          (hu : schema.insideField? sub? name = some u) :
          ∃ type, schema.Below (some u) (schema.composite? type.namedType)
            ∧ TrackedIn schema (schema.composite? type.namedType) ss
            ∧ replaced = (shallowing schema references customs).replacement type
              (rewriteAll schema (shallowing schema references customs).rewriting
                (schema.composite? type.namedType) ss) := by
        rw [Selection.Tracked] at hs
        rcases hs with rfl | hs | ⟨hfield, hss⟩
        · have hsub : sub? = none := by
            rcases hbelow with h | ⟨_, _, h, -⟩
            · exact h
            · cases h
          rw [hsub] at hu
          cases hu
        · simp [hname] at hs
        · obtain ⟨type, htype⟩ := Option.isSome_iff_exists.mp hfield
          have hinside : schema.insideField? sup? name = schema.composite? type.namedType := by
            rw [Schema.insideField?, htype, Option.bind_some]
          have hbelow' := (hbelow.field hschema hname hfield).2
          rw [hu, hinside] at hbelow'
          rw [hinside] at hss
          refine ⟨type, hbelow', hss, ?_⟩
          have hrewritten := hreplaced.symm.trans (rewrite_composite_of_ne_nil hne htype)
          simp only [Selection.field.injEq, Option.some.injEq, true_and] at hrewritten
          rw [hrewritten, hinside]
      rw [hreplaced] at h
      cases h with
      | field hmem hname htype =>
          cases List.mem_singleton.mp hmem
          obtain ⟨type, hbelow', -, hreplacement⟩ := htyped hname htype
          exact ⟨type, _, hreplacement, hbelow'⟩
      | inline hmem _ _ => cases List.mem_singleton.mp hmem
      | inside hmem hname htype hother h =>
          cases List.mem_singleton.mp hmem
          obtain ⟨type, hbelow', hss, rfl⟩ := htyped hname htype
          obtain ⟨-, u, hu, happlies⟩ := hbelow'.exists_applies rfl
          rw [hu] at h hss hbelow'
          have hih := fun s hs owner sub? sup? hs' hfilled hbelow h =>
            @ih s hs owner sub? sup? hs' hfilled hbelow h
          rw [ShallowRewriting.replacement] at h
          split at h
          · -- what lies under a type with a reference is not gone into
            rename_i reference hreference
            cases hreference.symm.trans (hother _ happlies)
          · split at h
            · rename_i v hv
              split at h
              · have hvtypes := Schema.mem_of_type? hv
                obtain ⟨p, hp, h⟩ := ShallowRewriting.exists_of_meets_split
                  (r := shallowing schema references customs) hschema hvtypes h
                obtain ⟨hcomposite, -, hsub⟩ := hschema.of_mem_possibleTypes hvtypes hp
                obtain rfl := Option.some.inj (hv.symm.trans (Schema.composite?_eq_some.mp hu).1)
                have hpossible := (Schema.composite?_eq_some.mp hcomposite).1
                exact hset hih hss hfilled (.inr ⟨v, p, rfl, rfl, hvtypes, hpossible, hsub⟩) h
              · exact hset hih hss hfilled hbelow' h
            · exact hset hih hss hfilled hbelow' h
  | spread fragment directives =>
      rw [Selection.rewrite] at h
      cases h with
      | field hmem _ _ | inline hmem _ _ | inside hmem _ _ _ _ => cases List.mem_singleton.mp hmem
  | inline condition? directives ss ih =>
      rw [Selection.rewrite] at h
      rw [Selection.Tracked] at hs
      cases h with
      | field hmem _ _ | inside hmem _ _ _ _ => cases List.mem_singleton.mp hmem
      | inline hmem _ h =>
          cases List.mem_singleton.mp hmem
          refine hset (fun s hs owner sub? sup? hs' hfilled hbelow h =>
            @ih s hs owner sub? sup? hs' hfilled hbelow h) hs
            (Selection.obeys_inline.mp hfilled) ?_ h
          cases condition? with
          | none => exact hbelow
          | some condition => exact .inl rfl

/-- What a field selects that is met from a fragment has taken the place of what was selected
before, for the type of the field or for one above it. -/
lemma Fragment.exists_replacement_of_meets {f : Fragment} (hf : f.Tracked schema)
    (hfilled : SetObeys .filled f.selections)
    (h : schema.Meets references ((f.shallow schema references customs).site schema) t inner) :
    ∃ type before, inner = (shallowing schema references customs).replacement type before
      ∧ schema.Below (some t) (schema.composite? type.namedType) := by
  obtain ⟨s', hs', h⟩ := h.exists_mem
  rw [Fragment.shallow_eq, Fragment.rewrite] at hs'
  dsimp only [ShallowRewriting.rewriting] at hs'
  rw [← ShallowRewriting.rewriting, rewriteAll_eq_map] at hs'
  obtain ⟨s, hs, rfl⟩ := List.mem_map.mp hs'
  exact RemoteNodes.exists_replacement_of_meets hschema (trackedIn_iff.mp hf s hs)
    (hfilled.2 s hs) (.inl rfl) h

end Rewritten

end RemoteNodes
