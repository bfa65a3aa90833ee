import RemoteNodes.Fragment.Unwrapping
import RemoteNodes.Proofs.Document.Sites
/-!
The fields that a selection set collects for objects of one type. The set's own fields count, and
those in the fragments that apply to the type.

* `Execution.Gathers`: a field that is collected; `Execution.Selects`: a leaf field at the end of a
  path of fields, for objects of given types.
* `Execution.gathers_iff_exists`, `Execution.gathers_append`: what the parts of a set collect;
  `Execution.gathers_field`, `Execution.gathers_inline`, `Execution.gathers_spread`: and what each
  kind of selection does.
* `Execution.Selects.unwrapSet`, `Execution.Selects.addAliases`: **what is selected stays selected
  when sets are unwrapped and when fields get aliases**.
-/

namespace RemoteNodes

namespace Execution

variable (x : Execution) (schema : Schema) (document : Document)

/-- A field that a selection set collects for objects of a type. -/
inductive Gathers (object : String) : List Selection → Selection → Prop
  | field {ss : List Selection} {alias? : Option String} {name : String}
      {arguments : List Argument} {directives : List Directive}
      {selections? : Option (List Selection)}
      (hs : .field alias? name arguments directives selections? ∈ ss)
      (hadmits : x.Admits directives) :
      Gathers object ss (.field alias? name arguments directives selections?)
  | inline {ss inner : List Selection} {s : Selection} {condition? : Option String}
      {directives : List Directive} (hs : .inline condition? directives inner ∈ ss)
      (hadmits : x.Admits directives)
      (happlies : ∀ condition, condition? = some condition → schema.Applies condition object)
      (h : Gathers object inner s) : Gathers object ss s
  | spread {ss : List Selection} {s : Selection} {f : Fragment} {directives : List Directive}
      (hs : .spread f.name directives ∈ ss) (hadmits : x.Admits directives)
      (hf : f ∈ document.fragments) (happlies : schema.Applies f.condition object)
      (h : Gathers object f.selections s) : Gathers object ss s

/-- A selection set selects a leaf field at the end of a path. Each step of the path is a field and
the type of the object that the field leads to. -/
inductive Selects : String → List Selection → List (String × String) → String → Prop
  | leaf {object leaf : String} {ss : List Selection} {alias? : Option String}
      {arguments : List Argument} {directives : List Directive}
      (h : x.Gathers schema document object ss (.field alias? leaf arguments directives none)) :
      Selects object ss [] leaf
  | step {object object' name leaf : String} {ss inner : List Selection} {alias? : Option String}
      {arguments : List Argument} {directives : List Directive} {path : List (String × String)}
      (h : x.Gathers schema document object ss
        (.field alias? name arguments directives (some inner)))
      (hinner : Selects object' inner path leaf) : Selects object ss ((name, object') :: path) leaf

variable {x schema document} {object name leaf : String} {ss : List Selection} {s : Selection}
  {path : List (String × String)}

lemma Gathers.mono {document' : Document} (h : x.Gathers schema document object ss s)
    (hsub : ∀ f ∈ document.fragments, f ∈ document'.fragments) :
    x.Gathers schema document' object ss s := by
  induction h with
  | field hs hadmits => exact .field hs hadmits
  | inline hs hadmits happlies _ ih => exact .inline hs hadmits happlies ih
  | spread hs hadmits hf happlies _ ih => exact .spread hs hadmits (hsub _ hf) happlies ih

lemma Selects.mono {document' : Document} (h : x.Selects schema document object ss path leaf)
    (hsub : ∀ f ∈ document.fragments, f ∈ document'.fragments) :
    x.Selects schema document' object ss path leaf := by
  induction h with
  | leaf h => exact .leaf (h.mono hsub)
  | step h _ ih => exact .step (h.mono hsub) ih

/-- A set that collects all that another one collects selects all that it selects. -/
lemma Selects.of_gathers {ss' : List Selection} (h : x.Selects schema document object ss path leaf)
    (hss : ∀ s, x.Gathers schema document object ss s → x.Gathers schema document object ss' s) :
    x.Selects schema document object ss' path leaf := by
  cases h with
  | leaf h => exact .leaf (hss _ h)
  | step h hinner => exact .step (hss _ h) hinner

/-! ### The parts of a set -/

/-- What a set collects is collected by one of its members. -/
lemma gathers_iff_exists (ss : List Selection) :
    x.Gathers schema document object ss s ↔ ∃ s' ∈ ss, x.Gathers schema document object [s'] s := by
  constructor
  · intro h
    cases h with
    | field hs hadmits => exact ⟨_, hs, .field (List.mem_singleton_self _) hadmits⟩
    | inline hs hadmits happlies h =>
        exact ⟨_, hs, .inline (List.mem_singleton_self _) hadmits happlies h⟩
    | spread hs hadmits hf happlies h =>
        exact ⟨_, hs, .spread (List.mem_singleton_self _) hadmits hf happlies h⟩
  · rintro ⟨s', hs', h⟩
    cases h with
    | field hs hadmits => exact .field (List.mem_singleton.mp hs ▸ hs') hadmits
    | inline hs hadmits happlies h =>
        exact .inline (List.mem_singleton.mp hs ▸ hs') hadmits happlies h
    | spread hs hadmits hf happlies h =>
        exact .spread (List.mem_singleton.mp hs ▸ hs') hadmits hf happlies h

lemma gathers_nil : ¬ x.Gathers schema document object [] s := by
  rw [gathers_iff_exists]
  rintro ⟨s', hs', -⟩
  cases hs'

lemma gathers_append (ss ss' : List Selection) : x.Gathers schema document object (ss ++ ss') s
    ↔ x.Gathers schema document object ss s ∨ x.Gathers schema document object ss' s := by
  rw [gathers_iff_exists (ss ++ ss'), gathers_iff_exists ss, gathers_iff_exists ss']
  simp only [List.mem_append, or_and_right, exists_or]

lemma gathers_cons (s' : Selection) (ss : List Selection) :
    x.Gathers schema document object (s' :: ss) s
      ↔ x.Gathers schema document object [s'] s ∨ x.Gathers schema document object ss s :=
  gathers_append [s'] ss

lemma gathers_field {alias? : Option String} {arguments : List Argument}
    {directives : List Directive} {selections? : Option (List Selection)} :
    x.Gathers schema document object [.field alias? name arguments directives selections?] s
      ↔ s = .field alias? name arguments directives selections? ∧ x.Admits directives := by
  constructor
  · intro h
    cases h with
    | field hs hadmits =>
        cases List.mem_singleton.mp hs
        exact ⟨rfl, hadmits⟩
    | inline hs _ _ _ => cases List.mem_singleton.mp hs
    | spread hs _ _ _ _ => cases List.mem_singleton.mp hs
  · rintro ⟨rfl, hadmits⟩
    exact .field (List.mem_singleton_self _) hadmits

lemma gathers_inline {condition? : Option String} {directives : List Directive}
    {inner : List Selection} :
    x.Gathers schema document object [.inline condition? directives inner] s
      ↔ x.Admits directives
        ∧ (∀ condition, condition? = some condition → schema.Applies condition object)
        ∧ x.Gathers schema document object inner s := by
  constructor
  · intro h
    cases h with
    | field hs _ => cases List.mem_singleton.mp hs
    | inline hs hadmits happlies h =>
        cases List.mem_singleton.mp hs
        exact ⟨hadmits, happlies, h⟩
    | spread hs _ _ _ _ => cases List.mem_singleton.mp hs
  · rintro ⟨hadmits, happlies, h⟩
    exact .inline (List.mem_singleton_self _) hadmits happlies h

lemma gathers_spread {fragment : String} {directives : List Directive} :
    x.Gathers schema document object [.spread fragment directives] s
      ↔ x.Admits directives ∧ ∃ f ∈ document.fragments, f.name = fragment
        ∧ schema.Applies f.condition object ∧ x.Gathers schema document object f.selections s := by
  constructor
  · intro h
    cases h with
    | field hs _ => cases List.mem_singleton.mp hs
    | inline hs _ _ _ => cases List.mem_singleton.mp hs
    | spread hs hadmits hf happlies h =>
        cases List.mem_singleton.mp hs
        exact ⟨hadmits, _, hf, rfl, happlies, h⟩
  · rintro ⟨hadmits, f, hf, rfl, happlies, h⟩
    exact .spread (List.mem_singleton_self _) hadmits hf happlies h

/-- Without its fields of the type name a set still collects all other fields. -/
lemma gathers_filter_isTypename (hs : s.isTypename = false) :
    x.Gathers schema document object (ss.filter (!·.isTypename)) s
      ↔ x.Gathers schema document object ss s := by
  rw [gathers_iff_exists (ss.filter _), gathers_iff_exists ss]
  constructor
  · rintro ⟨s', hs', h⟩
    exact ⟨s', (List.mem_filter.mp hs').1, h⟩
  · rintro ⟨s', hs', h⟩
    refine ⟨s', List.mem_filter.mpr ⟨hs', ?_⟩, h⟩
    cases s' with
    | field alias? name' arguments directives selections? =>
        obtain ⟨rfl, -⟩ := gathers_field.mp h
        rw [hs]
        rfl
    | spread _ _ | inline _ _ _ => rfl

/-! ### Unwrapping -/

lemma unwrapEach_eq_map (ss : List Selection) : unwrapEach ss = ss.map Selection.unwrap := by
  induction ss with
  | nil => rfl
  | cons s ss ih => rw [unwrapEach, ih, List.map_cons]

/-- An inline fragment that gives way to its contents has been the only selection, so it is where
everything was collected. -/
lemma Gathers.unwrapOuter (h : x.Gathers schema [] object ss s) :
    x.Gathers schema [] object (unwrapOuter ss) s := by
  unfold RemoteNodes.unwrapOuter
  split
  · split
    · cases h with
      | field hs _ => cases List.mem_singleton.mp hs
      | inline hs _ _ h =>
          cases List.mem_singleton.mp hs
          exact h
      | spread _ _ hf _ _ => cases hf
    · exact h
  · exact h

lemma Gathers.unwrapSet (h : x.Gathers schema [] object ss s) :
    x.Gathers schema [] object (unwrapSet ss) s.unwrap := by
  rw [RemoteNodes.unwrapSet]
  induction h with
  | @field ss alias? name arguments directives selections? hs hadmits =>
      have hmem := List.mem_map_of_mem (f := Selection.unwrap) hs
      rw [← unwrapEach_eq_map] at hmem
      refine Gathers.unwrapOuter ?_
      cases selections? with
      | none => exact .field hmem hadmits
      | some inner => exact .field hmem hadmits
  | inline hs hadmits happlies _ ih =>
      have hmem := List.mem_map_of_mem (f := Selection.unwrap) hs
      rw [← unwrapEach_eq_map, Selection.unwrap] at hmem
      exact .unwrapOuter (.inline hmem hadmits happlies ih)
  | spread _ _ hf _ _ _ => cases hf

theorem Selects.unwrapSet (h : x.Selects schema [] object ss path leaf) :
    x.Selects schema [] object (unwrapSet ss) path leaf := by
  induction h with
  | leaf h => exact .leaf h.unwrapSet
  | step h _ ih => exact .step h.unwrapSet ih

/-! ### Aliases -/

section Aliases

variable {types : List String} {aliases : Aliases} {parent? : Option NamedType}

lemma Gathers.addAliases (h : x.Gathers schema [] object ss s) (parent? : Option NamedType) :
    ∃ parent?', x.Gathers schema [] object
      (rewriteAll schema (aliasRewriting schema types aliases) parent? ss)
      (s.rewrite schema (aliasRewriting schema types aliases) parent?') := by
  induction h generalizing parent? with
  | @field ss alias? name arguments directives selections? hs hadmits =>
      refine ⟨parent?, ?_⟩
      have hmem := List.mem_map_of_mem hs
        (f := (·.rewrite schema (aliasRewriting schema types aliases) parent?))
      rw [← rewriteAll_eq_map] at hmem
      obtain ⟨alias?', -, halias⟩ := exists_alias_rewrite schema types aliases parent? alias? name
        arguments directives selections?
      rw [halias] at hmem ⊢
      exact .field hmem hadmits
  | inline hs hadmits happlies _ ih =>
      have hmem := List.mem_map_of_mem hs
        (f := (·.rewrite schema (aliasRewriting schema types aliases) parent?))
      rw [← rewriteAll_eq_map, Selection.rewrite] at hmem
      obtain ⟨parent?', ih⟩ := ih (schema.insideInline? parent? _)
      exact ⟨parent?', .inline hmem hadmits happlies ih⟩
  | spread _ _ hf _ _ _ => cases hf

theorem Selects.addAliases (h : x.Selects schema [] object ss path leaf)
    (parent? : Option NamedType) :
    x.Selects schema [] object
      (rewriteAll schema (aliasRewriting schema types aliases) parent? ss) path leaf := by
  induction h generalizing parent? with
  | leaf h =>
      obtain ⟨parent?', h⟩ := h.addAliases parent?
      obtain ⟨alias?', -, halias⟩ := exists_alias_rewrite schema types aliases parent?' _ _ _ _ none
      rw [halias] at h
      exact .leaf h
  | step h _ ih =>
      obtain ⟨parent?', h⟩ := h.addAliases parent?
      obtain ⟨alias?', -, halias⟩ :=
        exists_alias_rewrite schema types aliases parent?' _ _ _ _ (some _)
      rw [halias] at h
      exact .step h (ih _)

end Aliases

end Execution

end RemoteNodes
