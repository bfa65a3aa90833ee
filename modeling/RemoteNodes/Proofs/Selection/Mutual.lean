import Mathlib.Logic.Relation
import Mathlib.Tactic
import RemoteNodes.Proofs.Selection.Inclusion
/-!
Selections and selection sets that include each other. Which selections there are at each depth is
all that counts, not how they are arranged.

* `SameSets`, beside `Selection.same`: mutual inclusion of selection sets, **an equivalence**
  (`equivalence_sameSets`, `Selection.equivalence_same`).
* `Interchangeable`, `Selection.Interchangeable`: what stands in the same inclusions.
* `SetChanges`, `Selection.Changes`: a change at any depth. `SetChanges.sameSets`: **what is changed
  for something that it includes mutually takes all around it along**.
* `Reshuffles`, `Selection.Reorders`: changes to the order of selections, arguments and directives
  and to the number of selections.
* `inclusion_preorder`: **inclusion is a preorder, blind to these changes**;
  `arguments_of_directives_ordered`: the order of the arguments inside a directive counts.
-/

namespace RemoteNodes

open Relation

/-! ### Mutual inclusion -/

/-- Two selection sets include each other. -/
def SameSets (a? b? : Option (List Selection)) : Prop :=
  selectionSetIncludes a? b? = true ∧ selectionSetIncludes b? a? = true

lemma selectionSetIncludes_self (a? : Option (List Selection)) :
    selectionSetIncludes a? a? = true := by
  cases a? with
  | none => rfl
  | some ss => exact selectionsInclude_self ss

lemma selectionSetIncludes_trans {a? b? c? : Option (List Selection)}
    (hab : selectionSetIncludes a? b? = true) (hbc : selectionSetIncludes b? c? = true) :
    selectionSetIncludes a? c? = true := by
  -- a missing set and one that is there never include each other
  match a?, b?, c?, hab, hbc with
  | none, none, none, _, _ => rfl
  | some _, some _, some _, hab, hbc => exact selectionsInclude_trans hab hbc

lemma equivalence_sameSets : Equivalence SameSets where
  refl a? := ⟨selectionSetIncludes_self a?, selectionSetIncludes_self a?⟩
  symm h := ⟨h.2, h.1⟩
  trans hab hbc :=
    ⟨selectionSetIncludes_trans hab.1 hbc.1, selectionSetIncludes_trans hbc.2 hab.2⟩

/-- Two selection sets stand in the same inclusions with every set. -/
def Interchangeable (a? b? : Option (List Selection)) : Prop :=
  ∀ other?, selectionSetIncludes a? other? = selectionSetIncludes b? other?
    ∧ selectionSetIncludes other? a? = selectionSetIncludes other? b?

lemma SameSets.interchangeable {a? b? : Option (List Selection)} (h : SameSets a? b?) :
    Interchangeable a? b? := by
  intro other?
  constructor
  · exact Bool.eq_iff_iff.mpr ⟨selectionSetIncludes_trans h.2, selectionSetIncludes_trans h.1⟩
  · exact Bool.eq_iff_iff.mpr ⟨fun ha => selectionSetIncludes_trans ha h.1,
      fun hb => selectionSetIncludes_trans hb h.2⟩

namespace Selection

variable {s s' : Selection}

lemma same_iff : s.same s' = true ↔ s.includes s' = true ∧ s'.includes s = true := by
  rw [same, Bool.and_eq_true]

lemma equivalence_same : Equivalence fun s s' : Selection => s.same s' = true where
  refl s := same_iff.mpr ⟨s.includes_self, s.includes_self⟩
  symm h := same_iff.mpr (same_iff.mp h).symm
  trans hab hbc := by
    obtain ⟨hab, hba⟩ := same_iff.mp hab
    obtain ⟨hbc, hcb⟩ := same_iff.mp hbc
    exact same_iff.mpr ⟨includes_trans hab hbc, includes_trans hcb hba⟩

/-- Two selections stand in the same inclusions with every selection. -/
def Interchangeable (s s' : Selection) : Prop :=
  ∀ other : Selection, s.includes other = s'.includes other ∧ other.includes s = other.includes s'

lemma interchangeable_of_same (h : s.same s' = true) : s.Interchangeable s' := by
  obtain ⟨hs, hs'⟩ := same_iff.mp h
  intro other
  constructor
  · exact Bool.eq_iff_iff.mpr ⟨includes_trans hs', includes_trans hs⟩
  · exact Bool.eq_iff_iff.mpr ⟨fun h => includes_trans h hs, fun h => includes_trans h hs'⟩

end Selection

/-! ### Changes at any depth -/

section Changes

variable (change : Selection → Selection → Prop)
  (changeSet : List Selection → List Selection → Prop)

mutual
/-- One change turns a selection into another one: a change to itself, or one inside it. -/
inductive Selection.Changes : Selection → Selection → Prop
  | here {s s' : Selection} (h : change s s') : Selection.Changes s s'
  | field {alias? : Option String} {name : String} {arguments : List Argument}
      {directives : List Directive} {ss ss' : List Selection} (h : SetChanges ss ss') :
      Selection.Changes (.field alias? name arguments directives (some ss))
        (.field alias? name arguments directives (some ss'))
  | inline {condition? : Option String} {directives : List Directive} {ss ss' : List Selection}
      (h : SetChanges ss ss') :
      Selection.Changes (.inline condition? directives ss) (.inline condition? directives ss')
/-- One change turns a selection set into another one: a change to itself, or one to a selection
in it. -/
inductive SetChanges : List Selection → List Selection → Prop
  | here {ss ss' : List Selection} (h : changeSet ss ss') : SetChanges ss ss'
  | inside (before after : List Selection) {s s' : Selection} (h : Selection.Changes s s') :
      SetChanges (before ++ s :: after) (before ++ s' :: after)
end

end Changes

lemma sameTexts_map {α : Type} {text : α → String} {as as' : List α} (h : as.Perm as') :
    sameTexts (as.map text) (as'.map text) = true :=
  List.isPerm_iff.mpr (h.map text)

lemma selectionsInclude_of_subset {ss ts : List Selection} (h : ts ⊆ ss) :
    selectionsInclude ss ts = true :=
  selectionsInclude_iff.mpr fun t ht => ⟨t, h ht, t.includes_self⟩

/-- A set with a selection that includes the one in its place includes the other set. -/
lemma selectionsInclude_replace {before after : List Selection} {s s' : Selection}
    (h : s.includes s' = true) :
    selectionsInclude (before ++ s :: after) (before ++ s' :: after) = true := by
  refine selectionsInclude_iff.mpr fun t ht => ?_
  rcases List.mem_append.mp ht with ht | ht
  · exact ⟨t, List.mem_append_left _ ht, t.includes_self⟩
  · rcases List.mem_cons.mp ht with rfl | ht
    · exact ⟨s, by simp, h⟩
    · exact ⟨t, by simp [ht], t.includes_self⟩

lemma sameSets_replace {before after : List Selection} {s s' : Selection}
    (h : s.same s' = true) :
    SameSets (some (before ++ s :: after)) (some (before ++ s' :: after)) :=
  (Selection.same_iff.mp h).imp selectionsInclude_replace selectionsInclude_replace

namespace Selection

variable {alias? condition? : Option String} {name fragment : String}
  {arguments arguments' : List Argument} {directives directives' : List Directive}
  {ss ss' : List Selection}

lemma same_composite (harguments : arguments.Perm arguments')
    (hdirectives : directives.Perm directives') (h : SameSets (some ss) (some ss')) :
    (field alias? name arguments directives (some ss)).same
      (field alias? name arguments' directives' (some ss')) = true := by
  refine same_iff.mpr ⟨includes_composite_iff.mpr ?_, includes_composite_iff.mpr ?_⟩
  · exact ⟨sameTexts_map harguments, sameTexts_map hdirectives, h.1⟩
  · exact ⟨sameTexts_map harguments.symm, sameTexts_map hdirectives.symm, h.2⟩

lemma same_leaf (harguments : arguments.Perm arguments')
    (hdirectives : directives.Perm directives') :
    (field alias? name arguments directives none).same
      (field alias? name arguments' directives' none) = true := by
  refine same_iff.mpr ⟨includes_leaf_iff.mpr ?_, includes_leaf_iff.mpr ?_⟩
  · exact ⟨sameTexts_map harguments, sameTexts_map hdirectives⟩
  · exact ⟨sameTexts_map harguments.symm, sameTexts_map hdirectives.symm⟩

lemma same_inline (hdirectives : directives.Perm directives')
    (h : SameSets (some ss) (some ss')) :
    (inline condition? directives ss).same (inline condition? directives' ss') = true := by
  refine same_iff.mpr ⟨includes_inline_iff.mpr ?_, includes_inline_iff.mpr ?_⟩
  · exact ⟨sameTexts_map hdirectives, h.1⟩
  · exact ⟨sameTexts_map hdirectives.symm, h.2⟩

end Selection

section Changes

variable {change : Selection → Selection → Prop}
  {changeSet : List Selection → List Selection → Prop}

mutual
lemma Selection.Changes.same (hchange : ∀ s s', change s s' → s.same s' = true)
    (hchangeSet : ∀ ss ss', changeSet ss ss' → SameSets (some ss) (some ss')) {s s' : Selection}
    (h : s.Changes change changeSet s') : s.same s' = true := by
  match h with
  | .here h => exact hchange _ _ h
  | .field h => exact Selection.same_composite (.refl _) (.refl _) (h.sameSets hchange hchangeSet)
  | .inline h => exact Selection.same_inline (.refl _) (h.sameSets hchange hchangeSet)
/-- A change for something that is mutually included, at any depth, leaves the whole set mutually
included. -/
lemma SetChanges.sameSets (hchange : ∀ s s', change s s' → s.same s' = true)
    (hchangeSet : ∀ ss ss', changeSet ss ss' → SameSets (some ss) (some ss'))
    {ss ss' : List Selection} (h : SetChanges change changeSet ss ss') :
    SameSets (some ss) (some ss') := by
  match h with
  | .here h => exact hchangeSet _ _ h
  | .inside _ _ h => exact sameSets_replace (h.same hchange hchangeSet)
end

end Changes

/-! ### Arrangements -/

/-- A selection with its arguments and directives in another order. Of a spread directives do not
count at all. -/
inductive Selection.Reorders : Selection → Selection → Prop
  | field {alias? : Option String} {name : String} {arguments arguments' : List Argument}
      {directives directives' : List Directive} {selections? : Option (List Selection)}
      (harguments : arguments.Perm arguments') (hdirectives : directives.Perm directives') :
      Reorders (.field alias? name arguments directives selections?)
        (.field alias? name arguments' directives' selections?)
  | inline {condition? : Option String} {directives directives' : List Directive}
      {ss : List Selection} (hdirectives : directives.Perm directives') :
      Reorders (.inline condition? directives ss) (.inline condition? directives' ss)
  | spread {fragment : String} {directives directives' : List Directive} :
      Reorders (.spread fragment directives) (.spread fragment directives')

/-- A selection set in another order, or with one of its selections once more. -/
inductive Reshuffles : List Selection → List Selection → Prop
  | reorder {ss ss' : List Selection} (h : ss.Perm ss') : Reshuffles ss ss'
  | duplicate {s : Selection} {ss : List Selection} (h : s ∈ ss) : Reshuffles ss (s :: ss)

lemma Selection.Reorders.same {s s' : Selection} (h : s.Reorders s') : s.same s' = true := by
  cases h with
  | @field _ _ _ _ _ _ selections? harguments hdirectives =>
      cases selections? with
      | none => exact same_leaf harguments hdirectives
      | some ss => exact same_composite harguments hdirectives (equivalence_sameSets.refl _)
  | inline hdirectives => exact same_inline hdirectives (equivalence_sameSets.refl _)
  | spread => exact same_iff.mpr ⟨includes_spread, includes_spread⟩

lemma Reshuffles.sameSets {ss ss' : List Selection} (h : Reshuffles ss ss') :
    SameSets (some ss) (some ss') := by
  cases h with
  | reorder h =>
      exact ⟨selectionsInclude_of_subset h.symm.subset, selectionsInclude_of_subset h.subset⟩
  | duplicate h =>
      refine ⟨selectionsInclude_of_subset ?_, selectionsInclude_of_subset ?_⟩
      · exact List.cons_subset.mpr ⟨h, List.Subset.refl _⟩
      · exact List.subset_cons_self _ _

/-- A set whose selections, arguments and directives have been rearranged: at any depth, any number
of times, also back. -/
def Rearranged : List Selection → List Selection → Prop :=
  EqvGen (SetChanges Selection.Reorders Reshuffles)

/-- A selection that has been rearranged. -/
def Selection.Rearranged : Selection → Selection → Prop :=
  EqvGen (Selection.Changes Selection.Reorders Reshuffles)

/-- A set with a selection or a selection set at some depth replaced by one that it includes
mutually. -/
def Replaced : List Selection → List Selection → Prop :=
  SetChanges (fun s s' => s.same s' = true) fun ss ss' => SameSets (some ss) (some ss')

/-- A selection with something replaced. -/
def Selection.Replaced : Selection → Selection → Prop :=
  Selection.Changes (fun s s' => s.same s' = true) fun ss ss' => SameSets (some ss) (some ss')

lemma Rearranged.sameSets {ss ss' : List Selection} (h : Rearranged ss ss') :
    SameSets (some ss) (some ss') := by
  induction h with
  | rel _ _ h => exact h.sameSets (fun _ _ h => h.same) fun _ _ h => h.sameSets
  | refl ss => exact equivalence_sameSets.refl (some ss)
  | symm _ _ _ ih => exact equivalence_sameSets.symm ih
  | trans _ _ _ _ _ ih ih' => exact equivalence_sameSets.trans ih ih'

lemma Selection.Rearranged.same {s s' : Selection} (h : s.Rearranged s') : s.same s' = true := by
  induction h with
  | rel _ _ h => exact h.same (fun _ _ h => h.same) fun _ _ h => h.sameSets
  | refl s => exact equivalence_same.refl s
  | symm _ _ _ ih => exact equivalence_same.symm ih
  | trans _ _ _ _ _ ih ih' => exact equivalence_same.trans ih ih'

lemma Replaced.sameSets {ss ss' : List Selection} (h : Replaced ss ss') :
    SameSets (some ss) (some ss') :=
  SetChanges.sameSets (fun _ _ => id) (fun _ _ => id) h

lemma Selection.Replaced.same {s s' : Selection} (h : s.Replaced s') : s.same s' = true :=
  Selection.Changes.same (fun _ _ => id) (fun _ _ => id) h

/-- Inclusion is reflexive and transitive, of selection sets, missing ones among them, as well as of
selections, so that mutual inclusion is an equivalence. Two trees with equal parts are one and the
same here, wherever they come from. What is rearranged, or has something in it replaced by what it
includes mutually, is included mutually and stands in the same inclusions as before. -/
theorem inclusion_preorder :
    (IsPreorder (Option (List Selection)) (selectionSetIncludes · · = true)
      ∧ Equivalence SameSets
      ∧ (∀ ss ss', Rearranged ss ss' →
          SameSets (some ss) (some ss') ∧ Interchangeable (some ss) (some ss'))
      ∧ ∀ ss ss', Replaced ss ss' →
          SameSets (some ss) (some ss') ∧ Interchangeable (some ss) (some ss'))
    ∧ IsPreorder Selection (·.includes · = true)
      ∧ (Equivalence fun s s' : Selection => s.same s' = true)
      ∧ (∀ s s' : Selection, s.Rearranged s' → s.same s' = true ∧ s.Interchangeable s')
      ∧ ∀ s s' : Selection, s.Replaced s' → s.same s' = true ∧ s.Interchangeable s' := by
  refine ⟨⟨?_, equivalence_sameSets, fun ss ss' h => ?_, fun ss ss' h => ?_⟩,
    ?_, Selection.equivalence_same, fun s s' h => ?_, fun s s' h => ?_⟩
  · exact {
      refl := selectionSetIncludes_self
      trans := fun _ _ _ => selectionSetIncludes_trans }
  · exact ⟨h.sameSets, h.sameSets.interchangeable⟩
  · exact ⟨h.sameSets, h.sameSets.interchangeable⟩
  · exact {
      refl := Selection.includes_self
      trans := fun _ _ _ => Selection.includes_trans }
  · exact ⟨h.same, Selection.interchangeable_of_same h.same⟩
  · exact ⟨h.same, Selection.interchangeable_of_same h.same⟩

/-! ### A rearranged set -/

/-- The selections `title(...) sys { ... }`. -/
def titleAndSys (arguments : List Argument) (inner : List Selection) : List Selection :=
  [.field none "title" arguments [] none, .plain "sys" (some inner)]

/-- The arguments `locale: "en", format: HTML`. -/
def titleArguments : List Argument := [⟨"locale", .string "en" false⟩, ⟨"format", .enum "HTML"⟩]

lemma rearranged_titleAndSys : Rearranged (titleAndSys titleArguments [.plain "id"])
    (titleAndSys titleArguments.reverse [.plain "id", .plain "id"]) := by
  refine .trans _ (titleAndSys titleArguments.reverse [.plain "id"]) _ (.rel _ _ ?_) (.rel _ _ ?_)
  · exact .inside [] _ (.here (.field (List.reverse_perm _).symm (.refl _)))
  · exact .inside [_] _ (.field (.here (.duplicate List.mem_cons_self)))

/-- With its arguments in another order and a selection twice, a set stands in the same inclusions,
below another field too. -/
theorem inclusion_preorder_title :
    Interchangeable (some (titleAndSys titleArguments [.plain "id"]))
        (some (titleAndSys titleArguments.reverse [.plain "id", .plain "id"]))
      ∧ Interchangeable (some [.plain "page" (some (titleAndSys titleArguments [.plain "id"]))])
        (some [.plain "page"
          (some (titleAndSys titleArguments.reverse [.plain "id", .plain "id"]))]) := by
  obtain ⟨⟨-, -, hrearranged, hreplaced⟩, -⟩ := inclusion_preorder
  obtain ⟨hsame, hinterchangeable⟩ := hrearranged _ _ rearranged_titleAndSys
  refine ⟨hinterchangeable, (hreplaced _ _ ?_).2⟩
  exact .inside [] [] (.field (.here hsame))

/-! ### Arguments inside directives -/

/-- The selection `a @d(...)`. -/
def directed (arguments : List Argument) : List Selection :=
  [.field none "a" [] [⟨"d", arguments⟩] none]

/-- The order of the arguments inside a directive counts: directives are compared as they are
written. -/
theorem arguments_of_directives_ordered :
    [(⟨"x", .int "1"⟩ : Argument), ⟨"y", .int "2"⟩].Perm [⟨"y", .int "2"⟩, ⟨"x", .int "1"⟩]
      ∧ selectionSetIncludes (some (directed [⟨"x", .int "1"⟩, ⟨"y", .int "2"⟩]))
        (some (directed [⟨"y", .int "2"⟩, ⟨"x", .int "1"⟩])) = false :=
  ⟨.swap _ _ _, by decide +kernel⟩

end RemoteNodes
