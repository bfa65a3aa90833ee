import Mathlib
import RemoteNodes.Proofs.Node.Splitting
/-!
What is left out as a repetition. A path holds no two selections that ask for the same, a node type
has no extracted fragment twice, and in both places something that asks for the same has stayed.

* `Usages.pairwise_ofEvents`, `Usages.exists_same_of_found`: recorded selections differ, and **what
  is found is recorded**, up to what asks for the same.
* `exists_same_dropRepeated`: a fragment that is left out selects the same as one that is kept.
* `dropped_only_repeated`: **both together, for all that custom fragments ask for**.
-/

namespace RemoteNodes

open Relation

/-! ### Recorded selections -/

namespace Usages

variable {usages : Usages} {events : List UsageEvent} {type path : String} {s : Selection}

lemma subset_addSelection (ss : List Selection) (s : Selection) : ss ⊆ addSelection ss s := by
  rw [addSelection]
  split
  · exact List.Subset.refl ss
  · exact List.subset_append_left ss [s]

lemma exists_same_addSelection (ss : List Selection) (s : Selection) :
    ∃ s' ∈ addSelection ss s, s'.same s = true := by
  rw [addSelection]
  split
  · rename_i hany
    obtain ⟨s', hs', hsame⟩ := List.any_eq_true.mp hany
    exact ⟨s', hs', hsame⟩
  · exact ⟨s, by simp, by rw [Selection.same, s.includes_self]; rfl⟩

/-- A selection is added only if it differs from all that are there. -/
lemma pairwise_addSelection {ss : List Selection}
    (h : ss.Pairwise fun s s' => s.same s' = false) (s : Selection) :
    (addSelection ss s).Pairwise fun s s' => s.same s' = false := by
  rw [addSelection]
  split
  · exact h
  · rename_i hany
    refine List.pairwise_append.mpr ⟨h, List.pairwise_singleton _ _, fun s' hs' last hlast => ?_⟩
    rw [List.mem_singleton.mp hlast]
    by_contra hsame
    exact hany (List.any_eq_true.mpr ⟨s', hs', by simpa using hsame⟩)

/-- What is recorded stays recorded. -/
lemma subset_record (usages : Usages) (e : UsageEvent) (type path : String) :
    usages.selectionsAt type path ⊆ (usages.record e).selectionsAt type path := by
  cases e with
  | warned warning => exact List.Subset.refl _
  | opened type' path' =>
      rw [record, selectionsAt_update]
      split
      · rename_i heq
        obtain ⟨rfl, rfl⟩ := heq
        exact List.Subset.refl _
      · exact List.Subset.refl _
  | found type' path' s =>
      rw [record, selectionsAt_update]
      split
      · rename_i heq
        obtain ⟨rfl, rfl⟩ := heq
        exact subset_addSelection _ s
      · exact List.Subset.refl _

/-- What is found is recorded, or something that asks for the same. -/
theorem exists_same_of_found (h : .found type path s ∈ events) :
    ∃ s' ∈ (ofEvents events).selectionsAt type path, s'.same s = true := by
  induction events using List.reverseRecOn with
  | nil => cases h
  | append_singleton events e ih =>
      rw [ofEvents, List.foldl_append]
      rcases List.mem_append.mp h with h | h
      · obtain ⟨s', hs', hsame⟩ := ih h
        exact ⟨s', subset_record _ e type path hs', hsame⟩
      · cases List.mem_singleton.mp h
        obtain ⟨s', hs', hsame⟩ :=
          exists_same_addSelection ((ofEvents events).selectionsAt type path) s
        refine ⟨s', ?_, hsame⟩
        rw [List.foldl_cons, List.foldl_nil, record, selectionsAt_update, if_pos ⟨rfl, rfl⟩]
        exact hs'

/-- An event leaves no two selections at a path that ask for the same. -/
lemma pairwise_record (h : ∀ type path,
      (usages.selectionsAt type path).Pairwise fun s s' => s.same s' = false)
    (e : UsageEvent) (type path : String) :
    ((usages.record e).selectionsAt type path).Pairwise fun s s' => s.same s' = false := by
  cases e with
  | warned warning => exact h type path
  | opened type' path' =>
      rw [record, selectionsAt_update]
      split
      · exact h type' path'
      · exact h type path
  | found type' path' s =>
      rw [record, selectionsAt_update]
      split
      · exact pairwise_addSelection (h type' path') s
      · exact h type path

/-- At no path two selections are recorded that ask for the same. -/
theorem pairwise_ofEvents (events : List UsageEvent) (type path : String) :
    ((ofEvents events).selectionsAt type path).Pairwise fun s s' => s.same s' = false := by
  induction events using List.reverseRecOn generalizing type path with
  | nil => exact List.Pairwise.nil
  | append_singleton events e ih =>
      rw [ofEvents, List.foldl_append]
      exact pairwise_record ih e type path

/-- Each type comes once among the usages. -/
lemma nodup_types_ofEvents (events : List UsageEvent) : (Keyed.keys (ofEvents events)).Nodup := by
  induction events using List.reverseRecOn with
  | nil => exact List.nodup_nil
  | append_singleton events e ih =>
      rw [ofEvents, List.foldl_append]
      cases e with
      | warned warning => exact ih
      | opened type path | found type path s => exact Keyed.nodup_put ih _ _

/-- The selections that stand at a path in the usages are those that are looked up there. -/
lemma selectionsAt_of_mem {p : String × Keyed (List Selection)} {q : String × List Selection}
    (hp : p ∈ ofEvents events) (hq : q ∈ p.2) :
    (ofEvents events).selectionsAt p.1 q.1 = q.2 := by
  have hpaths : (ofEvents events).paths p.1 = p.2 := by
    rw [paths, (Keyed.mem_iff_get? (nodup_types_ofEvents events)).mp hp, Option.getD_some]
  have hnodup := (records_ofEvents events).nodup p.1
  rw [hpaths] at hnodup
  rw [selectionsAt, hpaths, (Keyed.mem_iff_get? hnodup).mp hq, Option.getD_some]

end Usages

/-! ### Kept fragments -/

/-- A fragment that is left out selects the same as one that is kept. -/
theorem exists_same_dropRepeated (names : List String) {fs : List Fragment} {f : Fragment}
    (hf : f ∈ fs) : ∃ g ∈ dropRepeated names fs, g.same f = true := by
  induction fs using List.reverseRecOn with
  | nil => cases hf
  | append_singleton fs last ih =>
      rw [dropRepeated, List.foldl_append, List.foldl_cons, List.foldl_nil]
      rcases List.mem_append.mp hf with hf | hf
      · obtain ⟨g, hg, hsame⟩ := ih hf
        refine ⟨g, ?_, hsame⟩
        split
        · exact hg
        · exact List.mem_append_left _ hg
      · rw [List.mem_singleton.mp hf]
        split
        · rename_i hrepeats
          rw [Bool.and_eq_true, List.any_eq_true] at hrepeats
          obtain ⟨-, g, hg, hsame⟩ := hrepeats
          exact ⟨g, hg, hsame⟩
        · exact ⟨last, List.mem_append_right _ (List.mem_singleton_self _), last.same_self⟩

section Kept

variable {schema : Schema} {usages : Usages} {events : List UsageEvent} {references : References}
  {customs : List Fragment} {type type' path : String}

/-- What is recorded under a node type or one of its interfaces makes up a fragment of the node
type, before repetitions are left out. -/
lemma shallow_fragmentAt_mem (h : usages.Records events) (htype : type' ∈ nodeTypeNames schema type)
    (hne : usages.selectionsAt type' path ≠ []) :
    (usages.fragmentAt type' path).shallow schema references customs
      ∈ makeShallow schema references customs (usageFragments schema usages type) := by
  rw [makeShallow_eq_map, usageFragments_eq]
  refine List.mem_map_of_mem (List.mem_flatMap.mpr ⟨type', htype, ?_⟩)
  exact (Usages.mem_fragmentsOn h).mpr ⟨rfl, hne⟩

/-- Of what is recorded, the fragments of a node type include everything. -/
lemma exists_includes_fragmentsFor (h : usages.Records events)
    (htype : type' ∈ nodeTypeNames schema type) (hne : usages.selectionsAt type' path ≠ []) :
    ∃ g ∈ fragmentsFor schema usages references customs type, g.condition = type'
      ∧ selectionsInclude g.selections
        ((usages.fragmentAt type' path).shallow schema references customs).selections = true := by
  have hmem : (usages.fragmentAt type' path).shallow schema references customs
      ∈ makeShallow schema references customs (usageFragments schema usages type) :=
    shallow_fragmentAt_mem h htype hne
  obtain ⟨g, hg, hsame⟩ := exists_same_dropRepeated (customs.map (·.name)) hmem
  rw [Fragment.same, Bool.and_eq_true, Bool.and_eq_true, beq_iff_eq] at hsame
  exact ⟨g, hg, hsame.1.1, hsame.1.2⟩

/-- A fragment at the name of a custom fragment is always kept. -/
lemma shallow_fragmentAt_mem_fragmentsFor (h : usages.Records events)
    (htype : type' ∈ nodeTypeNames schema type) (hne : usages.selectionsAt type' path ≠ [])
    (hpath : path ∈ customs.map (·.name)) :
    (usages.fragmentAt type' path).shallow schema references customs
      ∈ fragmentsFor schema usages references customs type := by
  refine (filter_sublist_dropRepeated _ _).subset (List.mem_filter.mpr
    ⟨shallow_fragmentAt_mem h htype hne, List.contains_iff_mem.mpr hpath⟩)

end Kept

/-! ### Repetitions -/

/-- What narrowing leaves of all that is collected is recorded, or something that asks for the
same. -/
lemma exists_same_of_leads {schema : Schema} {references : References} {customs : List Fragment}
    {f : Fragment} {start site : UsageWalk.Site} {s : Selection} (hf : f ∈ customs)
    (hbegins : (usageWalk schema references customs).Begins f start)
    (hchain : ReflTransGen (usageWalk schema references customs).Leads start site)
    (hs : s ∈ narrowAll schema site.type site.selections) :
    ∃ s' ∈ (Usages.ofEvents (usageEvents schema references customs)).selectionsAt site.type.name
      site.path, s'.same s = true := by
  refine Usages.exists_same_of_found (List.mem_flatMap.mpr ⟨f, hf, ?_⟩)
  exact UsageWalk.found_mem_fragmentEvents_iff.mpr ⟨start, site, hbegins, hchain, rfl, rfl, hs⟩

/-- **Nothing is left out but repetitions.** No two selections in a list of the usages include each
other, and what narrowing leaves of all that is collected at a path is in the list of that path, up
to selections that include each other. Of the fragments that the usages of a node type and of its
interfaces make up, each is included in a fragment of the node type on the same type, those at the
name of a custom fragment are there themselves, and there are no others. -/
theorem dropped_only_repeated (schema : Schema) (declarations : List NodeDeclaration)
    (references : References) (customs : List Fragment) :
    ∃ usages, (typeUsages schema customs references).outcome = .ok usages
      ∧ (∀ p ∈ usages, ∀ q ∈ p.2, q.2.Pairwise fun s s' => s.same s' = false)
      ∧ (∀ f ∈ customs, ∀ start site, (usageWalk schema references customs).Begins f start →
          ReflTransGen (usageWalk schema references customs).Leads start site →
          ∀ s ∈ narrowAll schema site.type site.selections,
            ∃ s' ∈ usages.selectionsAt site.type.name site.path, s'.same s = true)
      ∧ ∀ d ∈ declarations, ∃ fragments,
          Keyed.get? (nodeFragments schema declarations usages references customs) d.type
            = some fragments
          ∧ (∀ type ∈ nodeTypeNames schema d.type, ∀ path, usages.selectionsAt type path ≠ [] →
              (∃ g ∈ fragments, g.condition = type ∧ selectionsInclude g.selections
                ((usages.fragmentAt type path).shallow schema references customs).selections = true)
              ∧ (path ∈ customs.map (·.name) →
                (usages.fragmentAt type path).shallow schema references customs ∈ fragments))
          ∧ ∀ f ∈ fragments, ∃ type ∈ nodeTypeNames schema d.type, ∃ path,
              usages.selectionsAt type path ≠ []
                ∧ f = (usages.fragmentAt type path).shallow schema references customs := by
  have hrecords := Usages.records_ofEvents (usageEvents schema references customs)
  refine ⟨_, rfl, fun p hp q hq => ?_, fun f hf start site hbegins hchain s hs => ?_,
    fun d hd => ⟨_, get?_nodeFragments hd, fun type htype path hne => ⟨?_, ?_⟩, fun f hf => ?_⟩⟩
  · rw [← Usages.selectionsAt_of_mem hp hq]
    exact Usages.pairwise_ofEvents _ p.1 q.1
  · exact exists_same_of_leads hf hbegins hchain hs
  · exact exists_includes_fragmentsFor hrecords htype hne
  · exact shallow_fragmentAt_mem_fragmentsFor hrecords htype hne
  · obtain ⟨htype, hne, heq⟩ := exists_of_mem_fragmentsFor hrecords hf
    exact ⟨f.condition, htype, f.name, hne, heq⟩

/-- A custom fragment that asks for the name of an author. -/
def authorNames (name : String) : Fragment where
  name
  condition := "Meta"
  selections := [.plain "author" (some [.plain "name"])]

/-- What two such fragments ask of each type. -/
def authorUsages : Usages := [
  ("Meta", [("First", (authorNames "First").selections),
    ("Second", (authorNames "Second").selections)]),
  ("Foo", [("First__author", [.plain "name"]), ("Second__author", [.plain "name"])])]

lemma usages_authorNames : Usages.ofEvents (usageEvents itemSchema fooReferences
    [authorNames "First", authorNames "Second"]) = authorUsages := by
  cbv

/-- What the second fragment asks of authors is included in the one fragment on them that stays. -/
theorem dropped_only_repeated_author : ∃ usages g,
    (typeUsages itemSchema [authorNames "First", authorNames "Second"] fooReferences).outcome
      = .ok usages
    ∧ Keyed.get? (nodeFragments itemSchema [fooDeclaration] usages fooReferences
        [authorNames "First", authorNames "Second"]) "Foo" = some [g]
    ∧ usages.selectionsAt "Foo" "Second__author" ≠ []
    ∧ selectionsInclude g.selections ((usages.fragmentAt "Foo" "Second__author").shallow itemSchema
        fooReferences [authorNames "First", authorNames "Second"]).selections = true := by
  obtain ⟨usages, husages, -, -, hfragments⟩ := dropped_only_repeated itemSchema [fooDeclaration]
    fooReferences [authorNames "First", authorNames "Second"]
  obtain rfl : usages = authorUsages := (Except.ok.inj husages).symm.trans usages_authorNames
  obtain ⟨fragments, hget, hkept, -⟩ := hfragments fooDeclaration (List.mem_singleton_self _)
  have hname : authorUsages.selectionsAt "Foo" "Second__author" = [.plain "name"] := rfl
  have hne : authorUsages.selectionsAt "Foo" "Second__author" ≠ [] :=
    hname ▸ List.cons_ne_nil _ _
  obtain ⟨g, hg, -, hincludes⟩ := (hkept "Foo" List.mem_cons_self "Second__author" hne).1
  have hone : fragments = [⟨none, "First__author", "Foo", [], [.plain "name"]⟩] := by
    refine Option.some.inj (hget.symm.trans ?_)
    cbv
  subst hone
  exact ⟨_, g, husages, by rwa [List.mem_singleton.mp hg], hne, hincludes⟩

end RemoteNodes
