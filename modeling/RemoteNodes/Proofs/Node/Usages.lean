import Mathlib.Tactic
import RemoteNodes.Proofs.Keyed
import RemoteNodes.Proofs.Node.Walk
/-!
What a walk over a custom fragment finds, and what is recorded of it.

* `Below`: a path that goes on from another one.
* `UsageWalk.kept`: what is left of a custom fragment after narrowing.
* `UsageWalk.found_mem_fragmentEvents_iff`: **the walk over a fragment finds what narrowing leaves
  of all that it collects**; `UsageWalk.found_of_mem_kept`, `UsageWalk.mem_kept_of_found`: of the
  fragment itself at its name, and of all else below its name.
* `Usages.Records`: usages that record events; one more event, and from it all events.
-/

namespace RemoteNodes

open Relation

/-! ### Paths -/

/-- A path that goes on from another one by the name of a field. -/
def Below (path inner : String) : Prop := ∃ rest, inner = path ++ "__" ++ rest

/-- Whether two underscores follow each other in a name. -/
def HasDoubleUnderscore (name : String) : Prop := ['_', '_'] <:+: name.toList

instance : DecidablePred HasDoubleUnderscore := fun name =>
  inferInstanceAs (Decidable (['_', '_'] <:+: name.toList))

lemma below_field (path name : String) : Below path (path ++ "__" ++ name) := ⟨name, rfl⟩

lemma Below.trans {path inner innermost : String} (h : Below path inner)
    (h' : Below inner innermost) : Below path innermost := by
  obtain ⟨rest, rfl⟩ := h
  obtain ⟨rest', rfl⟩ := h'
  exact ⟨rest ++ "__" ++ rest', by simp only [String.append_assoc]⟩

lemma Below.hasDoubleUnderscore {path inner : String} (h : Below path inner) :
    HasDoubleUnderscore inner := by
  obtain ⟨rest, rfl⟩ := h
  exact ⟨path.toList, rest.toList, by simp⟩

/-! ### The walk over a custom fragment -/

namespace UsageWalk

variable {w : UsageWalk} {rule : SelectionRule} {f : Fragment} {start site : Site}
  {type path : String} {s : Selection}

/-- What is collected for another node is collected below the path that leads to it. -/
lemma Leads.below (h : w.Leads start site) : Below start.path site.path := by
  obtain ⟨-, -, _, -, hasks⟩ := h
  cases hasks <;> exact below_field _ _

/-- All that is collected besides what the walk begins with is collected below its path. -/
lemma eq_or_below (h : ReflTransGen w.Leads start site) :
    site = start ∨ Below start.path site.path := by
  induction h with
  | refl => exact .inl rfl
  | tail _ hnext ih =>
      rcases ih with rfl | hbelow
      · exact .inr hnext.below
      · exact .inr (hbelow.trans hnext.below)

/-- Rules that selections obey at any depth are inherited. -/
lemma inherited_obeys : w.Inherited (·.Obeys rule) where
  field h := (Selection.obeys_field.mp h).2
  inline h := (Selection.obeys_inline.mp h).2
  narrow h hs := h.narrow? hs

/-- What is left of a custom fragment after narrowing. Fragments on the root types and on types that
nothing can be selected on are left out. -/
def kept (w : UsageWalk) (f : Fragment) : List Selection :=
  if w.schema.query? == some f.condition || w.schema.mutation? == some f.condition then []
  else
    match w.schema.composite? f.condition with
    | none => []
    | some t => narrowAll w.schema t f.selections

/-- Where the walk over a custom fragment begins, unless the fragment is left out. -/
def Begins (w : UsageWalk) (f : Fragment) (start : Site) : Prop :=
  (w.schema.query? ≠ some f.condition ∧ w.schema.mutation? ≠ some f.condition)
    ∧ ∃ t, w.schema.composite? f.condition = some t ∧ start = ⟨t, f.name, f.selections⟩

/-- The walk begins at the type and the name of the fragment, with what is left of it. -/
lemma Begins.eqs (h : w.Begins f start) : start.type.name = f.condition ∧ start.path = f.name
    ∧ narrowAll w.schema start.type start.selections = w.kept f := by
  obtain ⟨hroot, t, ht, rfl⟩ := h
  refine ⟨Schema.name_of_type? (Schema.composite?_eq_some.mp ht).1, rfl, ?_⟩
  rw [kept, if_neg (by simp [hroot]), ht]

lemma exists_begins (h : s ∈ w.kept f) : ∃ start, w.Begins f start := by
  rw [kept] at h
  split at h
  · cases h
  · rename_i hroot
    split at h
    · cases h
    · rename_i t ht
      exact ⟨_, by simpa using hroot, t, ht, rfl⟩

/-- The walk over a custom fragment finds what narrowing leaves of all that it collects. -/
theorem found_mem_fragmentEvents_iff : .found type path s ∈ w.fragmentEvents f
    ↔ ∃ start site, w.Begins f start ∧ ReflTransGen w.Leads start site
      ∧ site.Holds w type path s := by
  constructor
  · intro h
    rw [fragmentEvents] at h
    split at h
    · cases h
    · rename_i hroot
      split at h
      · cases List.mem_singleton.mp h
      · rename_i t ht
        obtain ⟨site, hchain, hholds⟩ := found_mem_collect_iff.mp h
        exact ⟨_, site, ⟨by simpa using hroot, t, ht, rfl⟩, hchain, hholds⟩
  · rintro ⟨_, site, ⟨hroot, t, ht, rfl⟩, hchain, hholds⟩
    rw [fragmentEvents, if_neg (by simp [hroot])]
    simp only [ht]
    exact found_mem_collect_iff.mpr ⟨site, hchain, hholds⟩

/-- The walk over a fragment finds all that is left of it. -/
theorem found_of_mem_kept (hs : s ∈ w.kept f) :
    .found f.condition f.name s ∈ w.fragmentEvents f := by
  obtain ⟨start, hbegins⟩ := exists_begins hs
  obtain ⟨hname, hpath, hkept⟩ := hbegins.eqs
  exact found_mem_fragmentEvents_iff.mpr
    ⟨start, start, hbegins, .refl, hname, hpath, hkept ▸ hs⟩

/-- What the walk over a fragment finds inherits what all its selections have. -/
lemma Inherited.of_found {p : Selection → Prop} (hp : w.Inherited p) (hf : ∀ s ∈ f.selections, p s)
    (h : .found type path s ∈ w.fragmentEvents f) : p s := by
  obtain ⟨_, site, ⟨-, t, -, rfl⟩, hchain, -, -, hs⟩ := found_mem_fragmentEvents_iff.mp h
  exact hp.narrowAll (hp.chain hchain hf) s hs

/-- At a name without two underscores in a row a walk finds only what is left of the fragment of
that name. -/
theorem mem_kept_of_found (hplain : ¬ HasDoubleUnderscore path)
    (h : .found type path s ∈ w.fragmentEvents f) :
    type = f.condition ∧ path = f.name ∧ s ∈ w.kept f := by
  obtain ⟨start, site, hbegins, hchain, rfl, rfl, hs⟩ := found_mem_fragmentEvents_iff.mp h
  rcases eq_or_below hchain with rfl | hbelow
  · obtain ⟨hname, hpath, hkept⟩ := hbegins.eqs
    exact ⟨hname, hpath, hkept ▸ hs⟩
  · exact absurd hbelow.hasDoubleUnderscore hplain

end UsageWalk

/-! ### What is recorded -/

namespace Usages

/-- The paths recorded under a type, with their selections. -/
def paths (usages : Usages) (type : String) : Keyed (List Selection) :=
  (Keyed.get? usages type).getD []

/-- The selections recorded under a type at a path. -/
def selectionsAt (usages : Usages) (type path : String) : List Selection :=
  (Keyed.get? (usages.paths type) path).getD []

lemma paths_update (usages : Usages) (type type' : String)
    (g : Keyed (List Selection) → Keyed (List Selection)) :
    paths (Keyed.update usages type [] g) type'
      = if type' = type then g (usages.paths type) else usages.paths type' := by
  rw [paths, Keyed.update]
  split
  · rename_i h
    subst h
    rw [Keyed.get?_put_self, Option.getD_some, paths]
  · rename_i h
    rw [Keyed.get?_put_of_ne _ _ h, paths]

lemma selectionsAt_update (usages : Usages) (type path type' path' : String)
    (g : List Selection → List Selection) :
    selectionsAt (Keyed.update usages type [] fun paths => Keyed.update paths path [] g) type' path'
      = if type' = type ∧ path' = path then g (usages.selectionsAt type path)
        else usages.selectionsAt type' path' := by
  rw [selectionsAt, paths_update]
  by_cases htype : type' = type
  · subst htype
    rw [if_pos rfl, Keyed.update]
    by_cases hpath : path' = path
    · subst hpath
      rw [Keyed.get?_put_self, if_pos ⟨rfl, rfl⟩, Option.getD_some, selectionsAt]
    · rw [Keyed.get?_put_of_ne _ _ hpath, if_neg fun h => hpath h.2, selectionsAt]
  · rw [if_neg htype, if_neg fun h => htype h.1, selectionsAt]

/-- Usages that record events: each path comes once under a type, holds nothing but what was found
there, and holds something if anything was. -/
structure Records (events : List UsageEvent) (usages : Usages) : Prop where
  nodup : ∀ type, (Keyed.keys (usages.paths type)).Nodup
  found : ∀ {type path s}, s ∈ usages.selectionsAt type path → .found type path s ∈ events
  ne_nil : ∀ {type path s}, .found type path s ∈ events → usages.selectionsAt type path ≠ []

lemma mem_addSelection {ss : List Selection} {s s' : Selection} (h : s' ∈ addSelection ss s) :
    s' ∈ ss ∨ s' = s := by
  rw [addSelection] at h
  split at h
  · exact .inl h
  · simpa using h

lemma addSelection_ne_nil (ss : List Selection) (s : Selection) : addSelection ss s ≠ [] := by
  rw [addSelection]
  split
  · rintro rfl
    contradiction
  · simp

lemma nodup_paths_update {usages : Usages} (h : ∀ type, (Keyed.keys (usages.paths type)).Nodup)
    (type path : String) (g : List Selection → List Selection) (type' : String) :
    (Keyed.keys (paths (Keyed.update usages type [] fun paths => Keyed.update paths path [] g)
      type')).Nodup := by
  rw [paths_update]
  split
  · exact Keyed.nodup_put (h type) _ _
  · exact h type'

/-- One more event is recorded. -/
lemma Records.record {events : List UsageEvent} {usages : Usages} (h : Records events usages)
    (e : UsageEvent) : Records (events ++ [e]) (usages.record e) := by
  have hbefore {e' : UsageEvent} (h' : e' ∈ events) : e' ∈ events ++ [e] :=
    List.mem_append_left _ h'
  cases e with
  | warned warning =>
      refine ⟨h.nodup, fun hs => hbefore (h.found hs), fun hs => ?_⟩
      exact h.ne_nil (by simpa using hs)
  | opened type path =>
      have hat (type' path' : String) :
          (usages.record (.opened type path)).selectionsAt type' path'
            = usages.selectionsAt type' path' := by
        rw [Usages.record, selectionsAt_update]
        split
        · rename_i heq
          obtain ⟨rfl, rfl⟩ := heq
          rfl
        · rfl
      refine ⟨nodup_paths_update h.nodup type path id, fun hs => ?_, fun hs => ?_⟩
      · rw [hat] at hs
        exact hbefore (h.found hs)
      · rw [hat]
        exact h.ne_nil (by simpa using hs)
  | found type path s =>
      refine ⟨nodup_paths_update h.nodup type path _, fun hs => ?_, fun hs => ?_⟩
      · rw [Usages.record, selectionsAt_update] at hs
        split at hs
        · rename_i heq
          obtain ⟨rfl, rfl⟩ := heq
          rcases mem_addSelection hs with hs | rfl
          · exact hbefore (h.found hs)
          · simp
        · exact hbefore (h.found hs)
      · rw [Usages.record, selectionsAt_update]
        split
        · exact addSelection_ne_nil _ _
        · rename_i hne
          rcases List.mem_append.mp hs with hs | hs
          · exact h.ne_nil hs
          · cases List.mem_singleton.mp hs
            exact absurd ⟨rfl, rfl⟩ hne

/-- All events are recorded. -/
theorem records_ofEvents (events : List UsageEvent) : Records events (ofEvents events) := by
  induction events using List.reverseRecOn with
  | nil =>
      exact ⟨fun _ => List.nodup_nil, fun hs => absurd hs List.not_mem_nil, fun hs => by cases hs⟩
  | append_singleton events e ih =>
      rw [ofEvents, List.foldl_append]
      exact ih.record e

end Usages

end RemoteNodes
