import Mathlib.Tactic
import RemoteNodes.Fragment.Unwrapping
import RemoteNodes.Proofs.Document.Sites
import RemoteNodes.Proofs.Node.Reference
import RemoteNodes.Proofs.Response.Gathering
/-!
Selections that a query can ask for: every selection set selects something, and a field whose values
have fields has a selection set.

* `Selection.Usable`, `UsableIn`, `SetUsable`, `Fragment.Usable`: such selections, at any depth.
* `usable_rewrite_aliasRewriting`: aliases make no difference.
* `Selection.Conditioned`: selections whose inline fragments name the types that they are for, so
  that they can stand on any type.
* `setUsable_unwrapSet`: **unwrapping makes no difference** to those.
-/

namespace RemoteNodes

/-! ### Usable selections -/

mutual
/-- A selection on a type that a query can ask for. -/
def Selection.Usable (schema : Schema) (parent? : Option NamedType) : Selection → Prop
  | .field _ name _ _ none => name = "__typename" ∨ schema.insideField? parent? name = none
  | .field _ name _ _ (some selections) =>
    selections ≠ [] ∧ UsableIn schema (schema.insideField? parent? name) selections
  | .spread .. => True
  | .inline condition? _ selections =>
    selections ≠ [] ∧ UsableIn schema (schema.insideInline? parent? condition?) selections
/-- Selections on a type that a query can ask for. -/
def UsableIn (schema : Schema) (parent? : Option NamedType) : List Selection → Prop
  | [] => True
  | s :: ss => s.Usable schema parent? ∧ UsableIn schema parent? ss
end

/-- A selection set on a type that a query can ask for. -/
def SetUsable (schema : Schema) (parent? : Option NamedType) (ss : List Selection) : Prop :=
  ss ≠ [] ∧ UsableIn schema parent? ss

/-- A fragment that a query can use. -/
def Fragment.Usable (schema : Schema) (f : Fragment) : Prop :=
  SetUsable schema (schema.composite? f.condition) f.selections

section Usable

variable {schema : Schema} {parent? parent?' : Option NamedType} {s : Selection}
  {ss ss' : List Selection} {alias? condition? : Option String} {name fragment : String}
  {arguments : List Argument} {directives : List Directive}

lemma usableIn_iff : UsableIn schema parent? ss ↔ ∀ s ∈ ss, s.Usable schema parent? := by
  induction ss with
  | nil => simp [UsableIn]
  | cons s ss ih => rw [UsableIn, ih, List.forall_mem_cons]

namespace Selection

lemma usable_leaf : (field alias? name arguments directives none).Usable schema parent?
    ↔ name = "__typename" ∨ schema.insideField? parent? name = none := by
  rw [Usable]

lemma usable_composite : (field alias? name arguments directives (some ss)).Usable schema parent?
    ↔ SetUsable schema (schema.insideField? parent? name) ss := by
  rw [Usable, SetUsable]

lemma usable_spread : (spread fragment directives).Usable schema parent? := by
  rw [Usable]
  trivial

lemma usable_inline : (inline condition? directives ss).Usable schema parent?
    ↔ SetUsable schema (schema.insideInline? parent? condition?) ss := by
  rw [Usable, SetUsable]

end Selection

/-- Whether selections can be asked for depends on each of them alone. -/
lemma setUsable_map {α : Type} {f : α → Selection} {xs : List α} {P : α → Prop}
    (h : ∀ x ∈ xs, ((f x).Usable schema parent? ↔ P x)) :
    SetUsable schema parent? (xs.map f) ↔ xs ≠ [] ∧ ∀ x ∈ xs, P x := by
  rw [SetUsable, usableIn_iff, List.forall_mem_map, ne_eq, List.map_eq_nil_iff]
  exact and_congr_right fun _ => forall₂_congr h

/-- Aliases make no difference to what can be asked for. -/
lemma usable_rewrite_aliasRewriting {types : List String} {aliases : Aliases} :
    (s.rewrite schema (aliasRewriting schema types aliases) parent?).Usable schema parent?
      ↔ s.Usable schema parent? := by
  induction s using Selection.induct generalizing parent? with
  | leaf alias? name arguments directives =>
      obtain ⟨alias?', -, heq⟩ :=
        exists_alias_rewrite schema types aliases parent? alias? name arguments directives none
      rw [heq, Option.map_none, Selection.usable_leaf, Selection.usable_leaf]
  | composite alias? name arguments directives ss ih =>
      obtain ⟨alias?', -, heq⟩ :=
        exists_alias_rewrite schema types aliases parent? alias? name arguments directives (some ss)
      rw [heq, Option.map_some, Selection.usable_composite, Selection.usable_composite,
        rewriteAll_eq_map, setUsable_map fun s hs => ih s hs, SetUsable, usableIn_iff]
  | spread fragment directives => rw [Selection.rewrite]
  | inline condition? directives ss ih =>
      rw [Selection.rewrite, Selection.usable_inline, Selection.usable_inline]
      change SetUsable _ _ (rewriteAll _ _ _ ss) ↔ _
      rw [rewriteAll_eq_map, setUsable_map fun s hs => ih s hs, SetUsable, usableIn_iff]

end Usable

/-! ### Inline fragments with a type condition -/

mutual
/-- A selection in which every inline fragment names the type that it is for. -/
def Selection.Conditioned : Selection → Prop
  | .field _ _ _ _ none => True
  | .field _ _ _ _ (some selections) => ConditionedIn selections
  | .spread .. => True
  | .inline condition? _ selections => condition?.isSome = true ∧ ConditionedIn selections
/-- Selections in which every inline fragment names the type that it is for. -/
def ConditionedIn : List Selection → Prop
  | [] => True
  | s :: ss => s.Conditioned ∧ ConditionedIn ss
end

section Conditioned

variable {schema : Schema} {parent? parent?' : Option NamedType} {s : Selection}
  {ss : List Selection} {alias? condition? : Option String} {name fragment : String}
  {arguments : List Argument} {directives : List Directive}

lemma conditionedIn_iff : ConditionedIn ss ↔ ∀ s ∈ ss, s.Conditioned := by
  induction ss with
  | nil => simp [ConditionedIn]
  | cons s ss ih => rw [ConditionedIn, ih, List.forall_mem_cons]

namespace Selection

lemma conditioned_leaf : (field alias? name arguments directives none).Conditioned := by
  rw [Conditioned]
  trivial

lemma conditioned_composite : (field alias? name arguments directives (some ss)).Conditioned
    ↔ ConditionedIn ss := by
  rw [Conditioned]

lemma conditioned_spread : (spread fragment directives).Conditioned := by
  rw [Conditioned]
  trivial

lemma conditioned_inline : (inline condition? directives ss).Conditioned
    ↔ condition?.isSome = true ∧ ConditionedIn ss := by
  rw [Conditioned]

end Selection

/-- Aliases leave inline fragments as they are. -/
lemma conditioned_rewrite_aliasRewriting {types : List String} {aliases : Aliases}
    (h : s.Conditioned) :
    (s.rewrite schema (aliasRewriting schema types aliases) parent?).Conditioned := by
  have hset {ss : List Selection} {inside? : Option NamedType}
      (ih : ∀ s ∈ ss, s.Conditioned →
        (s.rewrite schema (aliasRewriting schema types aliases) inside?).Conditioned)
      (hss : ConditionedIn ss) :
      ConditionedIn (rewriteAll schema (aliasRewriting schema types aliases) inside? ss) := by
    rw [rewriteAll_eq_map, conditionedIn_iff, List.forall_mem_map]
    exact fun s hs => ih s hs (conditionedIn_iff.mp hss s hs)
  induction s using Selection.induct generalizing parent? with
  | leaf alias? name arguments directives =>
      obtain ⟨alias?', -, heq⟩ :=
        exists_alias_rewrite schema types aliases parent? alias? name arguments directives none
      rw [heq]
      exact Selection.conditioned_leaf
  | composite alias? name arguments directives ss ih =>
      obtain ⟨alias?', -, heq⟩ :=
        exists_alias_rewrite schema types aliases parent? alias? name arguments directives (some ss)
      rw [heq]
      exact Selection.conditioned_composite.mpr
        (hset (fun s hs => ih s hs) (Selection.conditioned_composite.mp h))
  | spread fragment directives =>
      rw [Selection.rewrite]
      exact h
  | inline condition? directives ss ih =>
      rw [Selection.rewrite]
      obtain ⟨hcondition, hss⟩ := Selection.conditioned_inline.mp h
      exact Selection.conditioned_inline.mpr ⟨hcondition, hset (fun s hs => ih s hs) hss⟩

/-! ### Unwrapping -/

lemma conditionedIn_unwrapOuter (h : ConditionedIn ss) : ConditionedIn (unwrapOuter ss) := by
  unfold unwrapOuter
  split
  · split
    · exact (Selection.conditioned_inline.mp h.1).2
    · exact h
  · exact h

lemma Selection.Conditioned.unwrap (h : s.Conditioned) : s.unwrap.Conditioned := by
  have hset {ss : List Selection} (ih : ∀ s ∈ ss, s.Conditioned → s.unwrap.Conditioned)
      (hss : ConditionedIn ss) : ConditionedIn (unwrapOuter (unwrapEach ss)) := by
    refine conditionedIn_unwrapOuter (conditionedIn_iff.mpr ?_)
    rw [Execution.unwrapEach_eq_map, List.forall_mem_map]
    exact fun s hs => ih s hs (conditionedIn_iff.mp hss s hs)
  induction s using Selection.induct with
  | leaf alias? name arguments directives => exact h
  | composite alias? name arguments directives ss ih =>
      exact conditioned_composite.mpr (hset ih (conditioned_composite.mp h))
  | spread fragment directives => exact h
  | inline condition? directives ss ih =>
      obtain ⟨hcondition, hss⟩ := conditioned_inline.mp h
      exact conditioned_inline.mpr ⟨hcondition, hset ih hss⟩

/-- What is no field can stand on any type, as long as inline fragments name theirs. -/
lemma Selection.Conditioned.usable_congr (h : s.Conditioned) (hfield : s.isField = false) :
    s.Usable schema parent? ↔ s.Usable schema parent?' := by
  cases s with
  | field alias? name arguments directives selections? => cases hfield
  | spread fragment directives => simp only [usable_spread]
  | inline condition? directives ss =>
      obtain ⟨condition, rfl⟩ := Option.isSome_iff_exists.mp (conditioned_inline.mp h).1
      rw [usable_inline, usable_inline]
      rfl

/-- What a wrapping holds can be asked for in its place exactly if the wrapping can. -/
lemma setUsable_unwrapOuter (h : ConditionedIn ss) :
    SetUsable schema parent? (unwrapOuter ss) ↔ SetUsable schema parent? ss := by
  unfold unwrapOuter
  split
  · rename_i condition? directives inner
    split
    · rename_i hall
      obtain ⟨⟨-, hinner⟩, -⟩ := h.imp_left Selection.conditioned_inline.mp
      have hcongr : ∀ s ∈ inner, (s.Usable schema parent?
          ↔ s.Usable schema (schema.insideInline? parent? condition?)) := by
        intro s hs
        have hfield : s.isField = false := by simpa using List.all_eq_true.mp hall s hs
        exact (conditionedIn_iff.mp hinner s hs).usable_congr hfield
      have hwrapping : SetUsable schema parent? [.inline condition? directives inner]
          ↔ SetUsable schema (schema.insideInline? parent? condition?) inner := by
        rw [SetUsable, UsableIn, Selection.usable_inline]
        simp [UsableIn]
      rw [hwrapping, SetUsable, SetUsable, usableIn_iff, usableIn_iff, forall₂_congr hcongr]
    · exact Iff.rfl
  · exact Iff.rfl

/-- A set is unwrapped without a difference if each of its members is. -/
lemma setUsable_unwrapSet_of (h : ConditionedIn ss)
    (hss : ∀ s ∈ ss, (s.unwrap.Usable schema parent? ↔ s.Usable schema parent?)) :
    SetUsable schema parent? (unwrapSet ss) ↔ SetUsable schema parent? ss := by
  have heach : ConditionedIn (unwrapEach ss) := by
    rw [Execution.unwrapEach_eq_map, conditionedIn_iff, List.forall_mem_map]
    exact fun s hs => (conditionedIn_iff.mp h s hs).unwrap
  rw [unwrapSet, setUsable_unwrapOuter heach, Execution.unwrapEach_eq_map, setUsable_map hss,
    SetUsable, usableIn_iff]

lemma Selection.Conditioned.usable_unwrap (h : s.Conditioned) :
    s.unwrap.Usable schema parent? ↔ s.Usable schema parent? := by
  induction s using Selection.induct generalizing parent? with
  | leaf alias? name arguments directives => rw [Selection.unwrap]
  | composite alias? name arguments directives ss ih =>
      have hss := conditioned_composite.mp h
      rw [Selection.unwrap, usable_composite, usable_composite]
      exact setUsable_unwrapSet_of hss fun s hs => ih s hs (conditionedIn_iff.mp hss s hs)
  | spread fragment directives => rw [Selection.unwrap]
  | inline condition? directives ss ih =>
      have hss := (conditioned_inline.mp h).2
      rw [Selection.unwrap, usable_inline, usable_inline]
      exact setUsable_unwrapSet_of hss fun s hs => ih s hs (conditionedIn_iff.mp hss s hs)

/-- **Unwrapping makes no difference** to what can be asked for. -/
theorem setUsable_unwrapSet (h : ConditionedIn ss) :
    SetUsable schema parent? (unwrapSet ss) ↔ SetUsable schema parent? ss :=
  setUsable_unwrapSet_of h fun s hs => (conditionedIn_iff.mp h s hs).usable_unwrap

/-- A fragment stays what it is when aliases are given in it and it is unwrapped. -/
lemma Fragment.usable_unwrapped_rewrite {f : Fragment} {types : List String} {aliases : Aliases}
    (h : ConditionedIn f.selections) :
    (f.rewrite schema (aliasRewriting schema types aliases)).unwrapped.Usable schema
      ↔ f.Usable schema := by
  have haliased : ConditionedIn
      (f.rewrite schema (aliasRewriting schema types aliases)).selections := by
    change ConditionedIn (rewriteAll _ _ _ _)
    rw [rewriteAll_eq_map, conditionedIn_iff, List.forall_mem_map]
    exact fun s hs => conditioned_rewrite_aliasRewriting (conditionedIn_iff.mp h s hs)
  refine (setUsable_unwrapSet haliased).trans ?_
  change SetUsable _ _ (rewriteAll _ _ _ _) ↔ _
  rw [rewriteAll_eq_map]
  refine (setUsable_map fun s _ => usable_rewrite_aliasRewriting).trans ?_
  rw [Usable, SetUsable, usableIn_iff]
  exact Iff.rfl

end Conditioned

end RemoteNodes
