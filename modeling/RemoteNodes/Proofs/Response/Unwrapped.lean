import Mathlib.Tactic
import RemoteNodes.Proofs.Node.Splitting
import RemoteNodes.Proofs.Response.Included
import RemoteNodes.Proofs.Selection.Sets
/-!
Unwrapping reaches its end in one pass. A set that consists of a wrapping gives way to what the
wrapping holds, and as sets are unwrapped from the inside out, a chain of wrappings of any length
gives way to the set in its middle.

* `IsWrapping`: a set whose only selection is a wrapping; `Unwraps`: the chain of wrappings around
  a set, down to its core.
* `Unwraps.unwrapSet_eq`: what is left of a set are the members of its core, each unwrapped.
* `not_isWrapping_of_mem_unwrapSet`: **no wrapping is left**.
* `Schema.Covers`: a wrapping whose condition covers the conditions directly inside;
  `Unwraps.visits_core`: then a core is answered for every object to which a condition in it
  applies.
* `unwrapSet_normal_form`: **unwrapping is idempotent, and what is collected stays the same**.
-/

namespace RemoteNodes

variable {s : Selection} {ss inner core : List Selection} {condition? : Option String}
  {directives : List Directive}

/-! ### Single selections -/

namespace Selection

variable {alias? : Option String} {name fragment : String} {arguments : List Argument}

lemma unwrap_field {selections? : Option (List Selection)} :
    (field alias? name arguments directives selections?).unwrap
      = field alias? name arguments directives (selections?.map unwrapSet) := by
  cases selections? <;> rw [unwrap] <;> rfl

lemma unwrap_inline : (inline condition? directives inner).unwrap
    = inline condition? directives (unwrapSet inner) := by
  rw [unwrap, unwrapSet]

lemma exists_of_unwrap_eq_field {selections?' : Option (List Selection)}
    (h : s.unwrap = field alias? name arguments directives selections?') :
    ∃ selections?, s = field alias? name arguments directives selections?
      ∧ selections?.map unwrapSet = selections?' := by
  cases s with
  | field _ _ _ _ selections? =>
      rw [unwrap_field] at h
      cases h
      exact ⟨selections?, rfl, rfl⟩
  | spread _ _ => rw [unwrap] at h; cases h
  | inline _ _ _ => rw [unwrap_inline] at h; cases h

lemma exists_of_unwrap_eq_inline (h : s.unwrap = inline condition? directives inner) :
    ∃ inner', s = inline condition? directives inner' ∧ unwrapSet inner' = inner := by
  cases s with
  | field _ _ _ _ _ => rw [unwrap_field] at h; cases h
  | spread _ _ => rw [unwrap] at h; cases h
  | inline _ _ inner' =>
      rw [unwrap_inline] at h
      cases h
      exact ⟨inner', rfl, rfl⟩

lemma eq_of_unwrap_eq_spread (h : s.unwrap = spread fragment directives) :
    s = spread fragment directives := by
  cases s with
  | field _ _ _ _ _ => rw [unwrap_field] at h; cases h
  | spread _ _ => rwa [unwrap] at h
  | inline _ _ _ => rw [unwrap_inline] at h; cases h

/-- The set directly inside a selection is unwrapped with it. -/
lemma inner?_unwrap (s : Selection) : s.unwrap.inner? = s.inner?.map unwrapSet := by
  cases s with
  | field _ _ _ _ _ => rw [unwrap_field]; rfl
  | spread _ _ => rw [unwrap]; rfl
  | inline _ _ _ => rw [unwrap_inline]; rfl

lemma isField_unwrap (s : Selection) : s.unwrap.isField = s.isField := by
  cases s with
  | field _ _ _ _ _ => rw [unwrap_field]; rfl
  | spread _ _ => rw [unwrap]
  | inline _ _ _ => rw [unwrap_inline]; rfl

/-- A selection with an unwrapped set inside is unwrapped itself. -/
lemma unwrap_eq_self (h : ∀ inner, s.inner? = some inner → unwrapSet inner = inner) :
    s.unwrap = s := by
  cases s with
  | field _ _ _ _ selections? =>
      rw [unwrap_field]
      cases selections? with
      | none => rfl
      | some inner => rw [Option.map_some, h inner rfl]
  | spread _ _ => rw [unwrap]
  | inline _ _ inner => rw [unwrap_inline, h inner rfl]

end Selection

/-! ### Wrappings -/

/-- A set whose only selection is an inline fragment that holds no field. -/
def IsWrapping (ss : List Selection) : Prop :=
  ∃ condition? directives inner, ss = [.inline condition? directives inner]
    ∧ ∀ s ∈ inner, s.isField = false

lemma unwrapOuter_inline (h : ∀ s ∈ inner, s.isField = false) :
    unwrapOuter [.inline condition? directives inner] = inner := by
  have hall : inner.all (!·.isField) = true := by simpa using h
  rw [unwrapOuter, if_pos hall]

lemma unwrapOuter_of_not_isWrapping (h : ¬ IsWrapping ss) : unwrapOuter ss = ss := by
  unfold unwrapOuter
  split
  · rename_i condition? directives inner
    rw [if_neg]
    intro hall
    refine h ⟨condition?, directives, inner, rfl, fun s hs => ?_⟩
    simpa using List.all_eq_true.mp hall s hs
  · rfl

/-- Unwrapping leaves fields to a set exactly if there were any. -/
lemma forall_isField_unwrapSet :
    (∀ s ∈ unwrapSet ss, s.isField = false) ↔ ∀ s ∈ ss, s.isField = false := by
  have heach : (∀ s ∈ unwrapEach ss, s.isField = false) ↔ ∀ s ∈ ss, s.isField = false := by
    rw [Execution.unwrapEach_eq_map, List.forall_mem_map]
    simp only [Selection.isField_unwrap]
  rw [unwrapSet, ← heach]
  by_cases h : IsWrapping (unwrapEach ss)
  · obtain ⟨condition?, directives, inner, heq, hinner⟩ := h
    rw [heq, unwrapOuter_inline hinner]
    exact iff_of_true hinner (by simp [Selection.isField])
  · rw [unwrapOuter_of_not_isWrapping h]

/-- A set is a wrapping exactly if it is one after the sets inside are unwrapped. -/
lemma isWrapping_map_unwrap : IsWrapping (ss.map Selection.unwrap) ↔ IsWrapping ss := by
  constructor
  · rintro ⟨condition?, directives, inner', heq, hinner'⟩
    obtain ⟨s, rfl, hs⟩ := List.map_eq_singleton_iff.mp heq
    obtain ⟨inner, rfl, rfl⟩ := Selection.exists_of_unwrap_eq_inline hs
    exact ⟨condition?, directives, inner, rfl, forall_isField_unwrapSet.mp hinner'⟩
  · rintro ⟨condition?, directives, inner, rfl, hinner⟩
    exact ⟨condition?, directives, unwrapSet inner,
      by rw [List.map_singleton, Selection.unwrap_inline], forall_isField_unwrapSet.mpr hinner⟩

/-- What is left of a wrapping is what is left of the set in it. -/
lemma unwrapSet_inline (h : ∀ s ∈ inner, s.isField = false) :
    unwrapSet [.inline condition? directives inner] = unwrapSet inner := by
  rw [unwrapSet, Execution.unwrapEach_eq_map, List.map_singleton, Selection.unwrap_inline,
    unwrapOuter_inline (forall_isField_unwrapSet.mpr h)]

lemma unwrapSet_of_not_isWrapping (h : ¬ IsWrapping ss) :
    unwrapSet ss = ss.map Selection.unwrap := by
  rw [unwrapSet, Execution.unwrapEach_eq_map,
    unwrapOuter_of_not_isWrapping (isWrapping_map_unwrap.not.mpr h)]

/-! ### Chains of wrappings -/

/-- A set that is a chain of wrappings around a core, which is no wrapping itself. -/
inductive Unwraps : List Selection → List Selection → Prop
  | core {ss : List Selection} (h : ¬ IsWrapping ss) : Unwraps ss ss
  | wrapping {condition? : Option String} {directives : List Directive}
      {inner core : List Selection} (hinner : ∀ s ∈ inner, s.isField = false)
      (h : Unwraps inner core) : Unwraps [.inline condition? directives inner] core

/-- Every set has a core. -/
lemma exists_unwraps (ss : List Selection) : ∃ core, Unwraps ss core := by
  induction ss using Selection.set_induct with
  | step ss ih =>
      by_cases h : IsWrapping ss
      · obtain ⟨condition?, directives, inner, rfl, hinner⟩ := h
        obtain ⟨core, hcore⟩ := ih _ (List.mem_singleton_self _) inner rfl
        exact ⟨core, .wrapping hinner hcore⟩
      · exact ⟨ss, .core h⟩

namespace Unwraps

/-- **What is left of a set** are the members of its core, each unwrapped. -/
theorem unwrapSet_eq (h : Unwraps ss core) : unwrapSet ss = core.map Selection.unwrap := by
  induction h with
  | core h => exact unwrapSet_of_not_isWrapping h
  | wrapping hinner _ ih => rw [unwrapSet_inline hinner, ih]

lemma core_mem (h : Unwraps ss core) : core ∈ ss :: setsIn ss := by
  induction h with
  | core _ => exact List.mem_cons_self
  | @wrapping condition? directives inner core _ _ ih =>
      refine List.mem_cons_of_mem _ (mem_setsIn.mpr ⟨_, List.mem_singleton_self _, ?_⟩)
      rwa [Selection.sets]

/-- A set and its core have the same fields. -/
lemma mem_core_iff (h : Unwraps ss core) (hfield : s.isField = true) : s ∈ core ↔ s ∈ ss := by
  induction h with
  | core _ => rfl
  | wrapping hinner _ ih =>
      refine iff_of_false (fun hs => ?_) fun hs => ?_
      · rw [hinner s (ih.mp hs)] at hfield
        cases hfield
      · rw [List.mem_singleton.mp hs] at hfield
        cases hfield

/-- The members of an unwrapped set are the unwrapped members of its core. -/
lemma mem_unwrapSet (h : Unwraps ss core) : s ∈ unwrapSet ss ↔ ∃ s' ∈ core, s'.unwrap = s := by
  rw [h.unwrapSet_eq, List.mem_map]

end Unwraps

section Fields

variable {alias? : Option String} {name : String} {arguments : List Argument}
  {selections? : Option (List Selection)}

/-- A set keeps its fields, each unwrapped. -/
lemma field_mem_unwrapSet (h : .field alias? name arguments directives selections? ∈ ss) :
    .field alias? name arguments directives (selections?.map unwrapSet) ∈ unwrapSet ss := by
  obtain ⟨core, hcore⟩ := exists_unwraps ss
  exact hcore.mem_unwrapSet.mpr ⟨_, (hcore.mem_core_iff rfl).mpr h, Selection.unwrap_field⟩

/-- A set gets no other fields. -/
lemma exists_of_field_mem_unwrapSet
    (h : .field alias? name arguments directives selections? ∈ unwrapSet ss) :
    ∃ selections?', .field alias? name arguments directives selections?' ∈ ss
      ∧ selections?'.map unwrapSet = selections? := by
  obtain ⟨core, hcore⟩ := exists_unwraps ss
  obtain ⟨s, hs, hunwrap⟩ := hcore.mem_unwrapSet.mp h
  obtain ⟨selections?', rfl, hsome⟩ := Selection.exists_of_unwrap_eq_field hunwrap
  exact ⟨selections?', (hcore.mem_core_iff rfl).mp hs, hsome⟩

end Fields

/-! ### No wrapping is left -/

/-- **No wrapping is left**, at any depth. -/
theorem not_isWrapping_of_mem_unwrapSet :
    ∀ set ∈ unwrapSet ss :: setsIn (unwrapSet ss), ¬ IsWrapping set := by
  induction ss using Selection.set_induct with
  | step ss ih =>
      by_cases h : IsWrapping ss
      · obtain ⟨condition?, directives, inner, rfl, hinner⟩ := h
        rw [unwrapSet_inline hinner]
        exact ih _ (List.mem_singleton_self _) inner rfl
      · rw [unwrapSet_of_not_isWrapping h, List.forall_mem_cons]
        refine ⟨isWrapping_map_unwrap.not.mpr h, fun set hset => ?_⟩
        obtain ⟨s', hs', hset⟩ := mem_setsIn.mp hset
        obtain ⟨s, hs, rfl⟩ := List.mem_map.mp hs'
        obtain ⟨inner', hsome, hset⟩ := Selection.mem_sets_iff.mp hset
        rw [Selection.inner?_unwrap] at hsome
        obtain ⟨inner, hinner, rfl⟩ := Option.map_eq_some_iff.mp hsome
        exact ih s hs inner hinner set hset

/-- Where no wrapping is, nothing is unwrapped. -/
lemma unwrapSet_eq_self (h : ∀ set ∈ ss :: setsIn ss, ¬ IsWrapping set) : unwrapSet ss = ss := by
  induction ss using Selection.set_induct with
  | step ss ih =>
      rw [unwrapSet_of_not_isWrapping (h ss List.mem_cons_self)]
      refine (List.map_congr_left fun s hs => ?_).trans (List.map_id ss)
      refine Selection.unwrap_eq_self fun inner hsome => ih s hs inner hsome fun set hset => ?_
      exact h set (List.mem_cons_of_mem _ (mem_setsIn.mpr
        ⟨s, hs, Selection.mem_sets_iff.mpr ⟨inner, hsome, hset⟩⟩))

/-! ### What is collected -/

/-- The condition of a wrapping covers those of the inline fragments directly inside: it equals
them or lies above them. -/
def Schema.Covers (schema : Schema) (ss : List Selection) : Prop :=
  ∀ condition directives inner, ss = [.inline (some condition) directives inner] →
    (∀ s ∈ inner, s.isField = false) → ∀ condition' directives' inner',
      .inline (some condition') directives' inner' ∈ inner → schema.Applies condition condition'

/-- Selections whose type conditions alone decide what they collect, and whose wrappings only say
what the fragments in them say already. -/
structure Schema.Unwrappable (schema : Schema) (ss : List Selection) : Prop where
  unadorned : UnadornedIn ss
  conditioned : ConditionedIn ss
  covers : ∀ set ∈ ss :: setsIn ss, schema.Covers set

section Collected

open Execution

variable {schema : Schema} {x : Execution} {document : Document} {o : Operation}
  {position : Position}

lemma Schema.Unwrappable.of_mem (h : schema.Unwrappable ss) {set : List Selection}
    (hset : set ∈ ss :: setsIn ss) : schema.Unwrappable set where
  unadorned := h.unadorned.of_mem hset
  conditioned := h.conditioned.of_mem hset
  covers _ hset' := h.covers _ (Selection.cons_setsIn_subset hset hset')

/-- A wrapping has a condition and no directives, and what is in it can be unwrapped. -/
lemma Schema.Unwrappable.of_inline
    (h : schema.Unwrappable [.inline condition? directives inner]) :
    (∃ condition, condition? = some condition) ∧ directives = [] ∧ schema.Unwrappable inner := by
  have hmem := List.mem_singleton_self (Selection.inline condition? directives inner)
  exact ⟨Option.isSome_iff_exists.mp (Selection.conditioned_inline.mp h.conditioned.1).1,
    (Selection.unadorned_inline.mp (h.unadorned _ hmem)).1,
    h.of_mem (Selection.inner_mem_of_mem List.mem_cons_self hmem rfl)⟩

/-- A condition that covers those of the inline fragments in a set covers those in its core. -/
lemma Unwraps.applies (htrans : IsTrans String schema.Applies) (h : Unwraps ss core)
    (hss : schema.Unwrappable ss) {above : String} (habove : ∀ condition directives inner,
      .inline (some condition) directives inner ∈ ss → schema.Applies above condition) :
    ∀ condition directives inner,
      .inline (some condition) directives inner ∈ core → schema.Applies above condition := by
  induction h with
  | core _ => exact habove
  | @wrapping condition? directives inner core hinner _ ih =>
      obtain ⟨⟨condition, rfl⟩, -, hunwrappable⟩ := hss.of_inline
      refine ih hunwrappable fun condition' directives' inner' hs => ?_
      exact htrans.trans _ _ _ (habove _ _ _ (List.mem_singleton_self _))
        (hss.covers _ List.mem_cons_self _ _ _ rfl hinner _ _ _ hs)

/-- **The core of a set is answered** for every object to which a condition in it applies, if the
set is. -/
theorem Unwraps.visits_core (htrans : IsTrans String schema.Applies) (h : Unwraps ss core)
    (hss : schema.Unwrappable ss) (hvisits : x.Visits schema document o position ss)
    {condition : String} (hs : .inline (some condition) directives inner ∈ core)
    (happlies : x.AppliesAt schema position condition) :
    x.Visits schema document o position core := by
  induction h with
  | core _ => exact hvisits
  | @wrapping condition? directives' inner' core hinner hcore ih =>
      obtain ⟨⟨condition', rfl⟩, rfl, hunwrappable⟩ := hss.of_inline
      refine ih hunwrappable (hvisits.inline (List.mem_singleton_self _) x.admits_nil ?_) hs
      -- what applies inside applies to the wrapping as well
      intro above heq
      cases heq
      obtain ⟨object, hobject, happlies'⟩ := happlies
      have hcovers := hcore.applies htrans hunwrappable
        (hss.covers _ List.mem_cons_self _ _ _ rfl hinner) _ _ _ hs
      exact ⟨object, hobject, htrans.trans _ _ _ hcovers happlies'⟩

/-- What is answered for an object is answered unwrapped. -/
lemma visits_unwrapSet (hss : schema.Unwrappable ss) {set : List Selection}
    (h : x.Visits schema document (queryOf (some ss)) position set) :
    set ∈ ss :: setsIn ss
      ∧ x.Visits schema document (queryOf (some (unwrapSet ss))) position (unwrapSet set) := by
  induction h with
  | operation => exact ⟨List.mem_cons_self, .operation⟩
  | @field position set inner alias? name arguments directives items _ hs hadmits hobject ih =>
      obtain ⟨hset, ih⟩ := ih
      refine ⟨Selection.inner_mem_of_mem hset hs rfl, ?_⟩
      exact ih.field (field_mem_unwrapSet hs) hadmits hobject
  | @inline position set inner condition? directives _ hs hadmits happlies ih =>
      obtain ⟨hset, ih⟩ := ih
      refine ⟨Selection.inner_mem_of_mem hset hs rfl, ?_⟩
      by_cases hwrapping : IsWrapping set
      · obtain ⟨_, _, _, rfl, hinner⟩ := hwrapping
        cases List.mem_singleton.mp hs
        rwa [unwrapSet_inline hinner] at ih
      · rw [unwrapSet_of_not_isWrapping hwrapping] at ih
        exact ih.inline (List.mem_map.mpr ⟨_, hs, Selection.unwrap_inline⟩) hadmits happlies
  | spread _ hs _ _ _ ih =>
      exact absurd ((hss.of_mem ih.1).unadorned _ hs) Selection.not_unadorned_spread

/-- What is answered unwrapped for an object comes from a set that is answered for it. -/
lemma exists_visits_of_unwrapSet (htrans : IsTrans String schema.Applies)
    (hss : schema.Unwrappable ss) {set' : List Selection}
    (h : x.Visits schema document (queryOf (some (unwrapSet ss))) position set') :
    ∃ set ∈ ss :: setsIn ss, set' = unwrapSet set
      ∧ x.Visits schema document (queryOf (some ss)) position set := by
  induction h with
  | operation => exact ⟨ss, List.mem_cons_self, rfl, .operation⟩
  | field _ hs hadmits hobject ih =>
      obtain ⟨set, hset, rfl, hvisits⟩ := ih
      obtain ⟨selections?, hmem, hsome⟩ := exists_of_field_mem_unwrapSet hs
      obtain ⟨inner, rfl, rfl⟩ := Option.map_eq_some_iff.mp hsome
      exact ⟨inner, Selection.inner_mem_of_mem hset hmem rfl, rfl,
        hvisits.field hmem hadmits hobject⟩
  | @inline position set' inner' condition? directives _ hs hadmits happlies ih =>
      obtain ⟨set, hset, rfl, hvisits⟩ := ih
      obtain ⟨core, hcore⟩ := exists_unwraps set
      obtain ⟨s, hmem, hunwrap⟩ := hcore.mem_unwrapSet.mp hs
      obtain ⟨inner, rfl, rfl⟩ := Selection.exists_of_unwrap_eq_inline hunwrap
      have hset' := Selection.cons_setsIn_subset hset hcore.core_mem
      obtain ⟨hsome, -⟩ := Selection.conditioned_inline.mp
        (conditionedIn_iff.mp (hss.of_mem hset').conditioned _ hmem)
      obtain ⟨condition, rfl⟩ := Option.isSome_iff_exists.mp hsome
      have hvisits' := hcore.visits_core htrans (hss.of_mem hset) hvisits hmem
        (happlies condition rfl)
      exact ⟨inner, Selection.inner_mem_of_mem hset' hmem rfl, rfl,
        hvisits'.inline hmem hadmits happlies⟩
  | spread _ hs _ _ _ ih =>
      obtain ⟨set, hset, rfl, -⟩ := ih
      obtain ⟨core, hcore⟩ := exists_unwraps set
      obtain ⟨s, hs, hunwrap⟩ := hcore.mem_unwrapSet.mp hs
      obtain rfl := Selection.eq_of_unwrap_eq_spread hunwrap
      have hset' := Selection.cons_setsIn_subset hset hcore.core_mem
      exact absurd ((hss.of_mem hset').unadorned _ hs) Selection.not_unadorned_spread

/-- What is collected for an object stays the same if sets are unwrapped. -/
theorem collects_unwrapSet_iff (htrans : IsTrans String schema.Applies)
    (hss : schema.Unwrappable ss) {field : ResponseField} :
    x.Collects schema document (queryOf (some (unwrapSet ss))) position field
      ↔ x.Collects schema document (queryOf (some ss)) position field := by
  constructor
  · rintro ⟨set', alias?, name, arguments, directives, selections?, hvisits, hs, hcollects⟩
    obtain ⟨set, -, rfl, hvisits'⟩ := exists_visits_of_unwrapSet htrans hss hvisits
    obtain ⟨selections?', hmem, -⟩ := exists_of_field_mem_unwrapSet hs
    exact ⟨set, alias?, name, arguments, directives, selections?', hvisits', hmem, hcollects⟩
  · rintro ⟨set, alias?, name, arguments, directives, selections?, hvisits, hs, hcollects⟩
    exact ⟨_, alias?, name, arguments, directives, _, (visits_unwrapSet hss hvisits).2,
      field_mem_unwrapSet hs, hcollects⟩

/-- **Unwrapping is done in one pass and takes nothing away.** No set that is left, at any depth, is
a wrapping, so that unwrapping again changes nothing. Where wrappings cover what they hold, the same
fields are collected before and after, for objects of any types. Of the schema this takes only that
what lies under a type lies under all types above it (`Schema.Lawful.isTrans_applies`). -/
theorem unwrapSet_normal_form (ss : List Selection) :
    (∀ set ∈ unwrapSet ss :: setsIn (unwrapSet ss), ¬ IsWrapping set)
    ∧ unwrapSet (unwrapSet ss) = unwrapSet ss
    ∧ ∀ schema : Schema, IsTrans String schema.Applies → schema.Unwrappable ss →
      ∀ (x : Execution) document position field,
        x.Collects schema document (queryOf (some (unwrapSet ss))) position field
          ↔ x.Collects schema document (queryOf (some ss)) position field :=
  ⟨not_isWrapping_of_mem_unwrapSet, unwrapSet_eq_self not_isWrapping_of_mem_unwrapSet,
    fun _ htrans hss _ _ _ _ => collects_unwrapSet_iff htrans hss⟩

/-- Items, with a wrapping around what is asked for of each kind. -/
def wrappedItems : List Selection :=
  [.plain "items" (some [.inline (some "Item") [] [.inline (some "Foo") [] [.plain "name"],
    .inline (some "Meta") [] [.plain "note"]]])]

lemma unwrappable_wrappedItems : itemSchema.Unwrappable wrappedItems where
  unadorned := by decide
  conditioned := by
    simp [wrappedItems, Selection.plain, ConditionedIn, Selection.Conditioned]
  covers set hset condition directives inner heq hinner condition' directives' inner' hs := by
    subst heq
    obtain ⟨rfl, -, rfl⟩ : condition = "Item" ∧ directives = [] ∧ inner =
        [.inline (some "Foo") [] [.plain "name"], .inline (some "Meta") [] [.plain "note"]] := by
      simpa [wrappedItems, Selection.plain, setsIn, Selection.sets] using hset
    obtain ⟨rfl, -⟩ | ⟨rfl, -⟩ : condition' = "Foo" ∧ _ ∨ condition' = "Meta" ∧ _ := by
      simpa using hs
    · exact .inr ⟨itemType, rfl, rfl⟩
    · exact .inr ⟨itemType, rfl, rfl⟩

/-- The wrapping of the items is taken off. -/
theorem unwrapSet_wrappedItems :
    unwrapSet wrappedItems = [.plain "items" (some [.inline (some "Foo") [] [.plain "name"],
      .inline (some "Meta") [] [.plain "note"]])]
    ∧ IsTrans String itemSchema.Applies ∧ itemSchema.Unwrappable wrappedItems
    ∧ ∀ (x : Execution) document position field,
      x.Collects itemSchema document (queryOf (some (unwrapSet wrappedItems))) position field
        ↔ x.Collects itemSchema document (queryOf (some wrappedItems)) position field :=
  ⟨by cbv, lawful_itemSchema.isTrans_applies, unwrappable_wrappedItems,
    (unwrapSet_normal_form wrappedItems).2.2 itemSchema lawful_itemSchema.isTrans_applies
      unwrappable_wrappedItems⟩

end Collected

end RemoteNodes
