import Mathlib.Tactic
import RemoteNodes.Proofs.Selection.Usable
import RemoteNodes.Schema.Validity
/-!
Selection sets at any depth, and what holds of all the selections in them.

* `Selection.inner?`: the set directly inside a selection; `Selection.set_induct`: **induction over
  sets**.
* `Selection.forall_of_mem_sets`: what passes from selections to those directly inside them holds
  at any depth.
* `Selection.Unadorned`, `UnadornedIn`: selections without spreads and directives, so that their
  type conditions alone decide what they collect; `unadornedIn_iff`: the same told of all places at
  once.
-/

namespace RemoteNodes

variable {s : Selection} {ss inner set : List Selection} {alias? condition? : Option String}
  {name fragment : String} {arguments : List Argument} {directives : List Directive}

namespace Selection

/-! ### Sets inside of sets -/

/-- The selection set directly inside a selection. -/
def inner? : Selection → Option (List Selection)
  | field _ _ _ _ selections? => selections?
  | spread .. => none
  | inline _ _ selections => some selections

/-- The sets in a selection are the one directly inside it and those in that one. -/
lemma mem_sets_iff :
    set ∈ s.sets ↔ ∃ inner, s.inner? = some inner ∧ set ∈ inner :: setsIn inner := by
  cases s with
  | field _ _ _ _ selections? => cases selections? <;> simp [sets, inner?]
  | spread _ _ | inline _ _ _ => simp [sets, inner?]

/-- A property of every selection set follows from its passing from the sets directly inside. -/
theorem set_induct {motive : List Selection → Prop}
    (step : ∀ ss, (∀ s ∈ ss, ∀ inner, s.inner? = some inner → motive inner) → motive ss)
    (ss : List Selection) : motive ss := by
  have hinner (s : Selection) : ∀ inner, s.inner? = some inner → motive inner := by
    induction s using Selection.induct with
    | leaf _ _ _ _ | spread _ _ => exact fun _ h => nomatch h
    | composite _ _ _ _ ss ih | inline _ _ ss ih =>
        intro inner h
        cases h
        exact step ss ih
  exact step ss fun s _ => hinner s

/-- What passes from selections to those directly inside them holds in all sets at any depth. -/
theorem forall_of_mem_sets {P : Selection → Prop}
    (hinner : ∀ s inner, P s → s.inner? = some inner → ∀ s' ∈ inner, P s')
    (h : ∀ s ∈ ss, P s) : ∀ set ∈ ss :: setsIn ss, ∀ s ∈ set, P s := by
  induction ss using set_induct with
  | step ss ih =>
      refine List.forall_mem_cons.mpr ⟨h, fun set hset => ?_⟩
      obtain ⟨s, hs, hset⟩ := mem_setsIn.mp hset
      obtain ⟨inner, hsome, hset⟩ := mem_sets_iff.mp hset
      exact ih s hs inner hsome (hinner s inner (h s hs) hsome) set hset

/-- A selection in a set of selections has its sets among theirs. -/
lemma sets_subset_setsIn (hset : set ∈ ss :: setsIn ss) (hs : s ∈ set) : s.sets ⊆ setsIn ss := by
  refine forall_of_mem_sets (P := fun s => s.sets ⊆ setsIn ss) (fun s inner h hsome s' hs' => ?_)
    (fun s hs _ hset => mem_setsIn.mpr ⟨s, hs, hset⟩) set hset s hs
  refine fun set hset => h (mem_sets_iff.mpr ⟨inner, hsome, List.mem_cons_of_mem _ ?_⟩)
  exact mem_setsIn.mpr ⟨s', hs', hset⟩

/-- The set directly inside a member of a set of selections is one of theirs as well. -/
lemma inner_mem_of_mem (hset : set ∈ ss :: setsIn ss) (hs : s ∈ set)
    (hsome : s.inner? = some inner) : inner ∈ ss :: setsIn ss :=
  List.mem_cons_of_mem _
    (sets_subset_setsIn hset hs (mem_sets_iff.mpr ⟨inner, hsome, List.mem_cons_self⟩))

/-- A set of selections has its own sets among theirs. -/
lemma cons_setsIn_subset (hset : set ∈ ss :: setsIn ss) :
    set :: setsIn set ⊆ ss :: setsIn ss := by
  refine List.cons_subset.mpr ⟨hset, fun inner hinner => List.mem_cons_of_mem _ ?_⟩
  obtain ⟨s, hs, hinner⟩ := mem_setsIn.mp hinner
  exact sets_subset_setsIn hset hs hinner

end Selection

lemma ConditionedIn.of_mem (h : ConditionedIn ss) (hset : set ∈ ss :: setsIn ss) :
    ConditionedIn set := by
  refine conditionedIn_iff.mpr (Selection.forall_of_mem_sets (fun s inner h hsome => ?_)
    (conditionedIn_iff.mp h) set hset)
  cases s with
  | field _ _ _ _ _ =>
      cases hsome
      exact conditionedIn_iff.mp (Selection.conditioned_composite.mp h)
  | spread _ _ => cases hsome
  | inline _ _ _ =>
      cases hsome
      exact conditionedIn_iff.mp (Selection.conditioned_inline.mp h).2

/-! ### Unadorned selections -/

/-- A selection that neither spreads a fragment nor carries a directive, at any depth. -/
def Selection.Unadorned (s : Selection) : Prop :=
  s.spreadNames = [] ∧ ∀ site ∈ s.sites, site.directives = []

/-- Selections without spreads and directives. -/
def UnadornedIn (ss : List Selection) : Prop := ∀ s ∈ ss, s.Unadorned

instance (s : Selection) : Decidable s.Unadorned := inferInstanceAs (Decidable (_ ∧ _))

instance (ss : List Selection) : Decidable (UnadornedIn ss) :=
  inferInstanceAs (Decidable (∀ s ∈ ss, s.Unadorned))

lemma mem_sitesIn {site : DirectiveSite} : site ∈ sitesIn ss ↔ ∃ s ∈ ss, site ∈ s.sites := by
  induction ss with
  | nil => simp [sitesIn]
  | cons s ss ih => simp [sitesIn, ih]

/-- Being unadorned, told of all places at once. -/
lemma unadornedIn_iff :
    UnadornedIn ss ↔ spreadNamesIn ss = [] ∧ ∀ site ∈ sitesIn ss, site.directives = [] := by
  rw [spreadNamesIn_eq_flatMap, List.flatMap_eq_nil_iff]
  constructor
  · intro h
    refine ⟨fun s hs => (h s hs).1, fun site hsite => ?_⟩
    obtain ⟨s, hs, hsite⟩ := mem_sitesIn.mp hsite
    exact (h s hs).2 site hsite
  · rintro ⟨hspreads, hdirectives⟩ s hs
    exact ⟨hspreads s hs, fun site hsite => hdirectives site (mem_sitesIn.mpr ⟨s, hs, hsite⟩)⟩

namespace Selection

lemma not_unadorned_spread : ¬ (spread fragment directives).Unadorned := by
  rintro ⟨h, -⟩
  rw [spreadNames] at h
  cases h

lemma unadorned_composite : (field alias? name arguments directives (some ss)).Unadorned
    ↔ directives = [] ∧ UnadornedIn ss := by
  rw [Unadorned, unadornedIn_iff, spreadNames, sites, List.forall_mem_cons, and_left_comm]

lemma unadorned_inline : (inline condition? directives ss).Unadorned
    ↔ directives = [] ∧ UnadornedIn ss := by
  rw [Unadorned, unadornedIn_iff, spreadNames, sites, List.forall_mem_cons, and_left_comm]

end Selection

lemma UnadornedIn.of_mem (h : UnadornedIn ss) (hset : set ∈ ss :: setsIn ss) : UnadornedIn set := by
  refine Selection.forall_of_mem_sets (fun s inner h hsome => ?_) h set hset
  cases s with
  | field _ _ _ _ _ =>
      cases hsome
      exact (Selection.unadorned_composite.mp h).2
  | spread _ _ => cases hsome
  | inline _ _ _ =>
      cases hsome
      exact (Selection.unadorned_inline.mp h).2

end RemoteNodes
