import Mathlib.Tactic
import RemoteNodes.Document.Alias
import RemoteNodes.Document.Spreading
import RemoteNodes.Document.Typename
import RemoteNodes.Proofs.Document.Stages
import RemoteNodes.Selection.Spread
/-!
Selections that ask only for fields which the schema defines on the types that they are selected on.

* `Selection.Scoped`, `ScopedIn`: such selections, at any depth. Introspection fields are left
  aside with all that they hold.
* `Rewriting.KeepsScope`, `Selection.Scoped.rewrite`: **a rewriting that keeps scope in each field
  and in each set keeps it at any depth**.
* `keepsScope_typenameRewriting`, `keepsScope_aliasRewriting`, `keepsScope_spreadRewriting`: the
  rewritings of a document.
* `Document.Scoped`: documents; `Document.Scoped.rewrite`: their stages.
-/

namespace RemoteNodes

/-! ### Selections -/

mutual
/-- A selection on a type asks only for fields that are defined where they are selected. -/
def Selection.Scoped (schema : Schema) (parent? : Option NamedType) : Selection → Prop
  | .field _ name _ _ none =>
    isMetaName name = true ∨ (schema.fieldType? parent? name).isSome = true
  | .field _ name _ _ (some selections) =>
    isMetaName name = true ∨ ((schema.fieldType? parent? name).isSome = true
      ∧ ScopedIn schema (schema.insideField? parent? name) selections)
  | .spread .. => True
  | .inline condition? _ selections =>
    ScopedIn schema (schema.insideInline? parent? condition?) selections
/-- Selections on a type ask only for fields that are defined where they are selected. -/
def ScopedIn (schema : Schema) (parent? : Option NamedType) : List Selection → Prop
  | [] => True
  | s :: ss => s.Scoped schema parent? ∧ ScopedIn schema parent? ss
end

section Scope

variable {schema : Schema} {parent? : Option NamedType} {s : Selection} {ss ss' : List Selection}
  {alias? condition? : Option String} {name fragment : String} {arguments : List Argument}
  {directives : List Directive} {names : List String}

lemma scopedIn_iff : ScopedIn schema parent? ss ↔ ∀ s ∈ ss, s.Scoped schema parent? := by
  induction ss with
  | nil => simp [ScopedIn]
  | cons s ss ih => rw [ScopedIn, ih, List.forall_mem_cons]

lemma ScopedIn.mono (h : ScopedIn schema parent? ss) (hss : ss' ⊆ ss) :
    ScopedIn schema parent? ss' :=
  scopedIn_iff.mpr fun s hs => scopedIn_iff.mp h s (hss hs)

lemma ScopedIn.append (h : ScopedIn schema parent? ss) (h' : ScopedIn schema parent? ss') :
    ScopedIn schema parent? (ss ++ ss') :=
  scopedIn_iff.mpr fun s hs =>
    (List.mem_append.mp hs).elim (scopedIn_iff.mp h s) (scopedIn_iff.mp h' s)

namespace Selection

lemma scoped_leaf : (field alias? name arguments directives none).Scoped schema parent?
    ↔ isMetaName name = true ∨ (schema.fieldType? parent? name).isSome = true := by
  rw [Scoped]

lemma scoped_composite : (field alias? name arguments directives (some ss)).Scoped schema parent?
    ↔ isMetaName name = true ∨ ((schema.fieldType? parent? name).isSome = true
      ∧ ScopedIn schema (schema.insideField? parent? name) ss) := by
  rw [Scoped]

@[simp] lemma scoped_spread : (spread fragment directives).Scoped schema parent? := by
  rw [Scoped]
  trivial

lemma scoped_inline : (inline condition? directives ss).Scoped schema parent?
    ↔ ScopedIn schema (schema.insideInline? parent? condition?) ss := by
  rw [Scoped]

lemma scoped_typename : (plain "__typename").Scoped schema parent? :=
  scoped_leaf.mpr (.inl (by decide +kernel))

/-- Only the name of a field and its selections count. -/
lemma scoped_field_congr {alias?' : Option String} {arguments' : List Argument}
    {directives' : List Directive} {selections? : Option (List Selection)}
    (h : (field alias? name arguments directives selections?).Scoped schema parent?) :
    (field alias?' name arguments' directives' selections?).Scoped schema parent? := by
  cases selections? with
  | none => exact scoped_leaf.mpr (scoped_leaf.mp h)
  | some ss => exact scoped_composite.mpr (scoped_composite.mp h)

end Selection

lemma ScopedIn.typename_cons (h : ScopedIn schema parent? ss) :
    ScopedIn schema parent? (.plain "__typename" :: ss) :=
  ⟨Selection.scoped_typename, h⟩

/-! ### Rewriting -/

/-- A rewriting keeps scope if it keeps it in each field and in each selection set. -/
structure Rewriting.KeepsScope (schema : Schema) (r : Rewriting) : Prop where
  field : ∀ parent? s, s.Scoped schema parent? → (r.field parent? s).Scoped schema parent?
  set : ∀ owner parent? ss, ScopedIn schema parent? ss →
    ScopedIn schema parent? (r.set owner parent? ss)

variable {r : Rewriting}

/-- A rewriting that keeps scope keeps it at any depth. -/
theorem Selection.Scoped.rewrite (hr : r.KeepsScope schema) (h : s.Scoped schema parent?) :
    (s.rewrite schema r parent?).Scoped schema parent? := by
  have hset {owner : Owner} {inside? : Option NamedType} {ss : List Selection}
      (ih : ∀ s ∈ ss, s.Scoped schema inside? →
        (s.rewrite schema r inside?).Scoped schema inside?)
      (hss : ScopedIn schema inside? ss) :
      ScopedIn schema inside? (r.set owner inside? (rewriteAll schema r inside? ss)) := by
    refine hr.set _ _ _ (scopedIn_iff.mpr ?_)
    rw [rewriteAll_eq_map, List.forall_mem_map]
    exact fun s hs => ih s hs (scopedIn_iff.mp hss s hs)
  induction s using Selection.induct generalizing parent? with
  | leaf alias? name arguments directives =>
      rw [Selection.rewrite]
      exact hr.field _ _ h
  | composite alias? name arguments directives ss ih =>
      rw [Selection.rewrite]
      refine hr.field _ _ (scoped_composite.mpr ((scoped_composite.mp h).imp_right ?_))
      rintro ⟨hfield, hss⟩
      exact ⟨hfield, hset (fun s hs => ih s hs) hss⟩
  | spread fragment directives =>
      rw [Selection.rewrite]
      exact h
  | inline condition? directives ss ih =>
      rw [Selection.rewrite]
      exact scoped_inline.mpr (hset (fun s hs => ih s hs) (scoped_inline.mp h))

lemma ScopedIn.rewriteAll (hr : r.KeepsScope schema) (h : ScopedIn schema parent? ss)
    (owner : Owner) :
    ScopedIn schema parent? (r.set owner parent? (rewriteAll schema r parent? ss)) := by
  refine hr.set _ _ _ (scopedIn_iff.mpr ?_)
  rw [rewriteAll_eq_map, List.forall_mem_map]
  exact fun s hs => (scopedIn_iff.mp h s hs).rewrite hr

/-- Selecting type names keeps scope. -/
lemma keepsScope_typenameRewriting : typenameRewriting.KeepsScope schema where
  field _ _ h := h
  set owner parent? ss h := by
    dsimp only [typenameRewriting]
    split
    · exact h.typename_cons
    · exact h

/-- Giving aliases keeps scope. -/
lemma keepsScope_aliasRewriting {types : List String} {aliases : Aliases} :
    (aliasRewriting schema types aliases).KeepsScope schema where
  field parent? s h := by
    cases s with
    | field alias? name arguments directives selections? => exact Selection.scoped_field_congr h
    | spread fragment directives => exact h
    | inline condition? directives ss => exact h
  set _ _ _ h := h

/-- Spreading fragments keeps scope. -/
lemma keepsScope_spreadRewriting {type : String} :
    (spreadRewriting schema type names).KeepsScope schema where
  field _ _ h := h
  set owner parent? ss h := by
    dsimp only [spreadRewriting]
    split
    · refine scopedIn_iff.mpr fun s hs => ?_
      rcases mem_insertSpreads hs with hs | rfl | ⟨name, -, rfl⟩
      · exact scopedIn_iff.mp h s hs
      · exact Selection.scoped_typename
      · exact Selection.scoped_spread
    · exact h

/-! ### Taking spreads out -/

lemma Selection.Scoped.dropSpreads? {s' : Selection} (h : s.Scoped schema parent?)
    (hs : s.dropSpreads? names = some s') : s'.Scoped schema parent? := by
  have hset {inside? : Option NamedType} {ss : List Selection}
      (ih : ∀ s ∈ ss, ∀ s', s.Scoped schema inside? → s.dropSpreads? names = some s' →
        s'.Scoped schema inside?)
      (hss : ScopedIn schema inside? ss) : ScopedIn schema inside? (dropSpreadsIn names ss) := by
    rw [dropSpreadsIn_eq_filterMap, scopedIn_iff]
    intro s' hs'
    obtain ⟨s, hs, hleft⟩ := List.mem_filterMap.mp hs'
    exact ih s hs s' (scopedIn_iff.mp hss s hs) hleft
  induction s using Selection.induct generalizing parent? s' with
  | leaf alias? name arguments directives =>
      cases hs
      exact h
  | composite alias? name arguments directives ss ih =>
      cases hs
      refine scoped_composite.mpr ((scoped_composite.mp h).imp_right ?_)
      rintro ⟨hfield, hss⟩
      exact ⟨hfield, hset (fun s hs s' => ih s hs) hss⟩
  | spread fragment directives =>
      rw [Selection.dropSpreads?] at hs
      split at hs
      · cases hs
      · cases hs
        exact h
  | inline condition? directives ss ih =>
      cases hs
      exact scoped_inline.mpr (hset (fun s hs s' => ih s hs) (scoped_inline.mp h))

/-- Taking spreads out keeps scope. -/
lemma ScopedIn.dropSpreadsIn (h : ScopedIn schema parent? ss) :
    ScopedIn schema parent? (dropSpreadsIn names ss) := by
  rw [dropSpreadsIn_eq_filterMap, scopedIn_iff]
  intro s' hs'
  obtain ⟨s, hs, hleft⟩ := List.mem_filterMap.mp hs'
  exact (scopedIn_iff.mp h s hs).dropSpreads? hleft

end Scope

/-! ### Documents -/

/-- A fragment asks only for fields that are defined where they are selected. -/
def Fragment.Scoped (schema : Schema) (f : Fragment) : Prop :=
  ScopedIn schema (schema.composite? f.condition) f.selections

/-- An operation asks only for fields that are defined where they are selected. -/
def Operation.Scoped (schema : Schema) (o : Operation) : Prop :=
  ScopedIn schema (schema.operationType? o.kind) o.selections

/-- A document asks only for fields that are defined where they are selected. -/
def Document.Scoped (schema : Schema) (document : Document) : Prop :=
  (∀ o ∈ document.operations, o.Scoped schema) ∧ ∀ f ∈ document.fragments, f.Scoped schema

end RemoteNodes
