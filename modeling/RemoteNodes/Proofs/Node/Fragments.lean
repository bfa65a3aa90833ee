import Mathlib.Tactic
import RemoteNodes.Node.Fragments
import RemoteNodes.Proofs.Node.Reference
import RemoteNodes.Proofs.Node.Usages
import RemoteNodes.Proofs.Selection.Inclusion
/-!
The fragments of a node type: which names they have on which types, and which rules they obey.

* `keeps_shallow`: **making fragments shallow keeps the rules that the references obey**.
* `Usages.fragmentsOn`: the fragments on one type, one for each path; `two_le_count_of_pair`,
  `pair_of_two_le_count`: a path comes twice only with a type that is mentioned twice.
* `dropRepeated_sublist`, `filter_sublist_dropRepeated`, `pairwise_dropRepeated`: what is left out.
* `fragmentsFor`: the fragments of a node type, `get?_nodeFragments`; `mem_names_fragmentsFor`:
  **the custom names among them**.
-/

namespace RemoteNodes

open scoped List

/-- The name of a fragment with the type that it is made on. -/
def Fragment.header (f : Fragment) : String × String := (f.name, f.condition)

lemma Fragment.header_eq_iff {f g : Fragment} :
    f.header = g.header ↔ f.name = g.name ∧ f.condition = g.condition := Prod.mk_inj

/-! ### Shallow fragments -/

section Shallow

variable {rule : SelectionRule} {r : ShallowRewriting} {ss : List Selection} {s : Selection}

namespace ShallowRewriting

lemma obeys_of_mem_keptFor {possible : String} (hss : ∀ s ∈ ss, s.Obeys rule)
    (hs : s ∈ r.keptFor possible ss) : s.Obeys rule := by
  induction ss using keptFor.induct with
  | case1 =>
      rw [keptFor] at hs
      cases hs
  | case2 alias? name arguments directives selections? ss ih =>
      obtain ⟨hfirst, hrest⟩ := List.forall_mem_cons.mp hss
      rw [keptFor] at hs
      rcases List.mem_cons.mp hs with rfl | hs
      · exact hfirst
      · exact ih hrest hs
  | case3 directives inner ss ihinner ih =>
      obtain ⟨hfirst, hrest⟩ := List.forall_mem_cons.mp hss
      rw [keptFor] at hs
      rcases List.mem_append.mp hs with hs | hs
      · exact ihinner (Selection.obeys_inline.mp hfirst).2 hs
      · exact ih hrest hs
  | case4 condition directives inner ss ihinner ih =>
      obtain ⟨hfirst, hrest⟩ := List.forall_mem_cons.mp hss
      rw [keptFor] at hs
      rcases List.mem_append.mp hs with hs | hs
      · split at hs
        · exact ihinner (Selection.obeys_inline.mp hfirst).2 hs
        · split at hs
          · rwa [List.mem_singleton.mp hs]
          · cases hs
      · exact ih hrest hs
  | case5 fragment directives ss ih =>
      obtain ⟨hfirst, hrest⟩ := List.forall_mem_cons.mp hss
      rw [keptFor] at hs
      rcases List.mem_append.mp hs with hs | hs
      · split at hs
        · rwa [List.mem_singleton.mp hs]
        · cases hs
      · exact ih hrest hs

lemma obeys_of_mem_selectionsFor {possible : String} (href : r.references.Obey rule)
    (hss : ∀ s ∈ ss, s.Obeys rule) (hs : s ∈ r.selectionsFor ss possible) : s.Obeys rule := by
  have hs := (List.mem_filter.mp hs).1
  split at hs
  · rename_i reference hreference
    exact (href _ _ hreference).2 s hs
  · exact obeys_of_mem_keptFor hss hs

lemma setObeys_split {t : NamedType} (href : r.references.Obey rule)
    (hss : ∀ s ∈ ss, s.Obeys rule) : SetObeys rule (r.split t ss) := by
  refine .of_ne_nil (by rw [split]; simp) fun s hs => ?_
  refine obeys_plain_typename_cons (fun s hs => ?_) hs
  obtain ⟨p, -, hp⟩ := List.mem_filterMap.mp hs
  split at hp
  · cases hp
  · rename_i hne
    cases hp
    exact Selection.obeys_inline.mpr
      (.of_ne_nil hne fun s hs => obeys_of_mem_selectionsFor href hss hs)

lemma setObeys_replacement {type : TypeRef} (href : r.references.Obey rule)
    (hss : SetObeys rule ss) : SetObeys rule (r.replacement type ss) := by
  rw [replacement]
  split
  · rename_i reference hreference
    exact href _ _ hreference
  · split
    · split
      · exact setObeys_split href hss.2
      · exact hss
    · exact hss

/-- Making fragments shallow keeps the rules that the references obey. -/
theorem keeps_shallow (href : r.references.Obey rule) : r.rewriting.Keeps rule where
  field parent? s hs := by
    cases s with
    | field alias? name arguments directives selections? =>
        cases selections? with
        | none => exact hs
        | some ss =>
            dsimp only [rewriting, field]
            split
            · exact hs
            · split
              · exact hs
              · exact Selection.obeys_field.mpr
                  (setObeys_replacement href (Selection.obeys_field.mp hs))
    | spread fragment directives => exact hs
    | inline condition? directives ss => exact hs
  set _ _ _ h := h

end ShallowRewriting

/-- A fragment made shallow. -/
def Fragment.shallow (schema : Schema) (references : References) (customs : List Fragment)
    (f : Fragment) : Fragment :=
  f.rewrite schema (ShallowRewriting.rewriting
    ⟨schema, references, Keyed.ofPairs (customs.map fun f => (f.name, f.condition))⟩)

variable {schema : Schema} {references : References} {customs : List Fragment}

lemma makeShallow_eq_map (fs : List Fragment) :
    makeShallow schema references customs fs = fs.map (·.shallow schema references customs) := rfl

@[simp] lemma Fragment.condition_shallow (f : Fragment) :
    (f.shallow schema references customs).condition = f.condition := rfl

lemma Fragment.setObeys_shallow {f : Fragment} (href : references.Obey rule)
    (hf : SetObeys rule f.selections) :
    SetObeys rule (f.shallow schema references customs).selections :=
  Fragment.setObeys_rewrite (ShallowRewriting.keeps_shallow href) hf

end Shallow

/-! ### Fragments that usages make up -/

namespace Usages

/-- The fragment that the selections at a path make up. -/
def fragmentAt (usages : Usages) (type path : String) : Fragment :=
  { name := path, condition := type, selections := usages.selectionsAt type path }

/-- The fragments that the usages of one type make up, one for each path that holds anything. -/
def fragmentsOn (usages : Usages) (type : String) : List Fragment :=
  ((usages.paths type).filter (!·.2.isEmpty)).map fun p =>
    { name := p.1, condition := type, selections := p.2 }

variable {usages : Usages} {events : List UsageEvent} {types : List String} {type : String}
  {f g : Fragment}

lemma mem_fragmentsOn (h : Records events usages) :
    f ∈ usages.fragmentsOn type
      ↔ f = usages.fragmentAt type f.name ∧ usages.selectionsAt type f.name ≠ [] := by
  rw [fragmentsOn, List.mem_map]
  constructor
  · rintro ⟨⟨path, ss⟩, hp, rfl⟩
    obtain ⟨hp, hne⟩ := List.mem_filter.mp hp
    have hat : usages.selectionsAt type path = ss := by
      rw [selectionsAt, (Keyed.mem_iff_get? (h.nodup type)).mp hp, Option.getD_some]
    refine ⟨by rw [fragmentAt, hat], ?_⟩
    rw [hat]
    simpa using hne
  · rintro ⟨hf, hne⟩
    cases hget : Keyed.get? (usages.paths type) f.name with
    | none =>
        rw [selectionsAt, hget] at hne
        exact absurd rfl hne
    | some ss =>
        rw [selectionsAt, hget, Option.getD_some] at hne
        refine ⟨(f.name, ss), List.mem_filter.mpr ⟨?_, by simpa using hne⟩, ?_⟩
        · exact (Keyed.mem_iff_get? (h.nodup type)).mpr hget
        · rw [hf, fragmentAt, selectionsAt, hget, Option.getD_some]

lemma condition_of_mem_fragmentsOn (hf : f ∈ usages.fragmentsOn type) : f.condition = type := by
  obtain ⟨p, -, rfl⟩ := List.mem_map.mp hf
  rfl

/-- The fragments on one type have distinct names. -/
lemma nodup_fragmentsOn (h : Records events usages) (type : String) :
    ((usages.fragmentsOn type).map (·.name)).Nodup := by
  rw [fragmentsOn, List.map_map]
  exact (h.nodup type).sublist (List.filter_sublist.map _)

/-- Two fragments of one name and type come from two mentions of the type. -/
lemma two_le_count_of_pair (h : Records events usages)
    (hpair : [f, g] <+ types.flatMap usages.fragmentsOn) (hheader : f.header = g.header) :
    2 ≤ types.count f.condition := by
  obtain ⟨hname, hcondition⟩ := Fragment.header_eq_iff.mp hheader
  induction types with
  | nil => simp at hpair
  | cons type types ih =>
      rw [List.flatMap_cons, List.sublist_append_iff] at hpair
      obtain ⟨first, second, heq, hfirst, hsecond⟩ := hpair
      have hrest : 2 ≤ types.count f.condition → 2 ≤ (type :: types).count f.condition :=
        fun h => h.trans ((List.sublist_cons_self type types).count_le _)
      match first, heq with
      | [], heq =>
          rw [List.nil_append] at heq
          exact hrest (ih (heq ▸ hsecond))
      | [f'], heq =>
          -- one from the first type and one from a later one
          obtain ⟨rfl, rfl⟩ := List.cons.inj heq
          have hf := condition_of_mem_fragmentsOn (List.singleton_sublist.mp hfirst)
          obtain ⟨later, hlater, hg⟩ := List.mem_flatMap.mp (List.singleton_sublist.mp hsecond)
          have hlater : f.condition ∈ types := by
            rw [hcondition, condition_of_mem_fragmentsOn hg]
            exact hlater
          have hcount := List.count_pos_iff.mpr hlater
          rw [← hf, List.count_cons_self]
          omega
      | f' :: g' :: rest, heq =>
          obtain ⟨rfl, hrest⟩ := List.cons.inj heq
          obtain ⟨rfl, -⟩ := List.cons.inj hrest
          have htwo := (nodup_fragmentsOn h type).sublist
            (((List.sublist_append_left [f, g] rest).trans hfirst).map (·.name))
          exact absurd hname (by simpa using htwo)

/-- A type that is mentioned twice makes up each of its fragments twice. -/
lemma pair_of_two_le_count (hf : f ∈ types.flatMap usages.fragmentsOn)
    (hcount : 2 ≤ types.count f.condition) : [f, f] <+ types.flatMap usages.fragmentsOn := by
  obtain ⟨type, htype, hf⟩ := List.mem_flatMap.mp hf
  rw [condition_of_mem_fragmentsOn hf, ← List.replicate_sublist_iff] at hcount
  have hone := List.singleton_sublist.mpr hf
  calc [f, f] <+ usages.fragmentsOn type ++ usages.fragmentsOn type := hone.append hone
    _ = (List.replicate 2 type).flatMap usages.fragmentsOn := by simp [List.replicate]
    _ <+ types.flatMap usages.fragmentsOn := hcount.flatMap _

end Usages

lemma usageFragments_eq (schema : Schema) (usages : Usages) (type : String) :
    usageFragments schema usages type = (nodeTypeNames schema type).flatMap usages.fragmentsOn := by
  have hone (name : String) (m : Keyed (List Selection)) :
      (m.filterMap fun p =>
        if p.2.isEmpty then none
        else some ({ name := p.1, condition := name, selections := p.2 } : Fragment))
        = (m.filter (!·.2.isEmpty)).map fun p =>
            { name := p.1, condition := name, selections := p.2 } := by
    induction m with
    | nil => rfl
    | cons p m ih =>
        rw [List.filterMap_cons, List.filter_cons, ih]
        by_cases h : p.2.isEmpty = true
        · simp [h]
        · simp [h]
  exact List.flatMap_congr fun name _ => hone name (usages.paths name)

/-! ### Fragments that select the same -/

lemma Fragment.same_self (f : Fragment) : f.same f = true := by
  rw [Fragment.same, selectionsInclude_self, beq_self_eq_true]
  rfl

/-! ### Fragments that are left out -/

section Repeated

variable {names : List String} {fs : List Fragment}

/-- One more fragment is kept or left out. -/
private lemma dropRepeated_concat (names : List String) (fs : List Fragment) (f : Fragment) :
    dropRepeated names (fs ++ [f])
      = if !names.contains f.name && (dropRepeated names fs).any (·.same f) then
          dropRepeated names fs
        else dropRepeated names fs ++ [f] := by
  rw [dropRepeated, List.foldl_append]
  rfl

lemma dropRepeated_sublist (names : List String) (fs : List Fragment) :
    dropRepeated names fs <+ fs := by
  induction fs using List.reverseRecOn with
  | nil => exact List.Sublist.refl _
  | append_singleton fs f ih =>
      rw [dropRepeated_concat]
      split
      · exact ih.trans (List.sublist_append_left _ _)
      · exact ih.append_right [f]

/-- The fragments of the names are all kept. -/
lemma filter_sublist_dropRepeated (names : List String) (fs : List Fragment) :
    fs.filter (fun f => names.contains f.name) <+ dropRepeated names fs := by
  induction fs using List.reverseRecOn with
  | nil => exact List.Sublist.refl _
  | append_singleton fs f ih =>
      rw [dropRepeated_concat, List.filter_append]
      cases hname : names.contains f.name with
      | true => simpa [-List.contains_eq_mem, hname] using ih
      | false =>
          have hnone : [f].filter (fun f => names.contains f.name) = [] := by
            simp [-List.contains_eq_mem, hname]
          rw [hnone, List.append_nil]
          split
          · exact ih
          · exact ih.trans (List.sublist_append_left _ _)

/-- No fragment that is kept selects the same as an earlier one, except for those of the names. -/
lemma pairwise_dropRepeated (names : List String) (fs : List Fragment) :
    (dropRepeated names fs).Pairwise fun f g => g.name ∉ names → f.same g = false := by
  induction fs using List.reverseRecOn with
  | nil => exact List.Pairwise.nil
  | append_singleton fs f ih =>
      rw [dropRepeated_concat]
      split
      · exact ih
      · rename_i hkept
        refine List.pairwise_append.mpr
          ⟨ih, List.pairwise_singleton _ _, fun earlier hearlier g hg => ?_⟩
        rw [List.mem_singleton.mp hg]
        intro hname
        by_contra hsame
        rw [Bool.not_eq_false] at hsame
        refine hkept ?_
        rw [Bool.and_eq_true, List.any_eq_true]
        exact ⟨by simpa using hname, earlier, hearlier, hsame⟩

end Repeated

/-! ### The fragments of a node type -/

/-- The fragments of a node type, out of usages: shallow, and without repeated ones. -/
def fragmentsFor (schema : Schema) (usages : Usages) (references : References)
    (customs : List Fragment) (type : String) : List Fragment :=
  dropRepeated (customs.map (·.name))
    (makeShallow schema references customs (usageFragments schema usages type))

section NodeFragments

variable {schema : Schema} {usages : Usages} {references : References} {customs : List Fragment}
  {type : String} {events : List UsageEvent} {f g : Fragment}

lemma get?_nodeFragments {declarations : List NodeDeclaration} {d : NodeDeclaration}
    (hd : d ∈ declarations) :
    Keyed.get? (nodeFragments schema declarations usages references customs) d.type
      = some (fragmentsFor schema usages references customs d.type) :=
  Keyed.get?_ofPairs_map declarations (·.type) (fragmentsFor schema usages references customs)
    ⟨d, hd, rfl⟩

/-- A fragment of a node type is made on that type or one of its interfaces, out of selections that
are recorded under it. -/
lemma exists_of_mem_fragmentsFor (h : usages.Records events)
    (hf : f ∈ fragmentsFor schema usages references customs type) :
    f.condition ∈ nodeTypeNames schema type ∧ usages.selectionsAt f.condition f.name ≠ []
      ∧ f = (usages.fragmentAt f.condition f.name).shallow schema references customs := by
  have hf := (dropRepeated_sublist _ _).subset hf
  rw [makeShallow_eq_map] at hf
  obtain ⟨f', hf', rfl⟩ := List.mem_map.mp hf
  rw [usageFragments_eq] at hf'
  obtain ⟨type', htype', hf'⟩ := List.mem_flatMap.mp hf'
  obtain ⟨hat, hne⟩ := (Usages.mem_fragmentsOn h).mp hf'
  have hcondition := Usages.condition_of_mem_fragmentsOn hf'
  subst hcondition
  exact ⟨htype', hne, congrArg _ hat⟩

/-- A custom name is among the fragments of a node type exactly if something is recorded at it under
the type or one of its interfaces. -/
theorem mem_names_fragmentsFor (h : usages.Records events) {name : String}
    (hname : name ∈ customs.map (·.name)) :
    name ∈ (fragmentsFor schema usages references customs type).map (·.name)
      ↔ ∃ type' ∈ nodeTypeNames schema type, usages.selectionsAt type' name ≠ [] := by
  constructor
  · intro hmem
    obtain ⟨f, hf, rfl⟩ := List.mem_map.mp hmem
    obtain ⟨hcondition, hne, -⟩ := exists_of_mem_fragmentsFor h hf
    exact ⟨f.condition, hcondition, hne⟩
  · rintro ⟨type', htype', hne⟩
    have hf : usages.fragmentAt type' name ∈ usageFragments schema usages type := by
      rw [usageFragments_eq]
      exact List.mem_flatMap.mpr ⟨type', htype', (Usages.mem_fragmentsOn h).mpr ⟨rfl, hne⟩⟩
    have hshallow := List.mem_map_of_mem (f := (·.shallow schema references customs)) hf
    refine List.mem_map.mpr ⟨_, (filter_sublist_dropRepeated _ _).subset
      (List.mem_filter.mpr ⟨hshallow, ?_⟩), rfl⟩
    exact List.contains_iff_mem.mpr hname

/-- Two fragments of one name and type have a custom name, and the type is mentioned twice. -/
lemma two_le_count_of_pair_fragmentsFor (h : usages.Records events)
    (hpair : [f, g] <+ fragmentsFor schema usages references customs type)
    (hheader : f.header = g.header) :
    f.name ∈ customs.map (·.name) ∧ 2 ≤ (nodeTypeNames schema type).count f.condition := by
  obtain ⟨hname, hcondition⟩ := Fragment.header_eq_iff.mp hheader
  constructor
  · -- the two are the same fragment, so the second one would have been left out
    obtain ⟨-, -, hf⟩ := exists_of_mem_fragmentsFor h (hpair.subset (by simp : f ∈ [f, g]))
    obtain ⟨-, -, hg⟩ := exists_of_mem_fragmentsFor h (hpair.subset (by simp : g ∈ [f, g]))
    have hfg : f = g := by rw [hf, hg, hname, hcondition]
    subst hfg
    by_contra hcustom
    have hdifferent := List.pairwise_iff_forall_sublist.mp (pairwise_dropRepeated _ _) hpair hcustom
    rw [f.same_self] at hdifferent
    cases hdifferent
  · have hpair := hpair.trans (dropRepeated_sublist _ _)
    rw [makeShallow_eq_map, usageFragments_eq, List.sublist_map_iff] at hpair
    obtain ⟨pair, hpair, heq⟩ := hpair
    match pair, heq with
    | [f', g'], heq =>
        obtain ⟨rfl, hrest⟩ := List.cons.inj heq
        obtain ⟨rfl, -⟩ := List.cons.inj hrest
        exact Usages.two_le_count_of_pair (f := f') (g := g') h ‹_› hheader

/-- A fragment of a custom name comes twice if its type is mentioned twice. -/
lemma pair_fragmentsFor_of_two_le_count
    (hf : f ∈ fragmentsFor schema usages references customs type)
    (hname : f.name ∈ customs.map (·.name))
    (hcount : 2 ≤ (nodeTypeNames schema type).count f.condition) :
    [f, f] <+ fragmentsFor schema usages references customs type := by
  have hf := (dropRepeated_sublist _ _).subset hf
  rw [makeShallow_eq_map, usageFragments_eq] at hf
  obtain ⟨f', hf', rfl⟩ := List.mem_map.mp hf
  let g := f'.shallow schema references customs
  have hpair := (Usages.pair_of_two_le_count hf' hcount).map (·.shallow schema references customs)
  have hpair := hpair.filter fun f => (customs.map (·.name)).contains f.name
  rw [← usageFragments_eq, ← makeShallow_eq_map] at hpair
  have hboth : [g, g].filter (fun f => (customs.map (·.name)).contains f.name) = [g, g] := by
    refine List.filter_eq_self.mpr fun x hx => ?_
    have hx : x = g := by simpa using hx
    rw [hx]
    exact List.contains_iff_mem.mpr hname
  rw [← hboth]
  exact hpair.trans (filter_sublist_dropRepeated _ _)

/-- The fragments of a node type obey the rules that the references and the custom fragments
obey. -/
lemma setObeys_of_mem_fragmentsFor {rule : SelectionRule} (h : usages.Records events)
    (href : references.Obey rule)
    (hevents : ∀ {type path s}, .found type path s ∈ events → s.Obeys rule)
    (hf : f ∈ fragmentsFor schema usages references customs type) : SetObeys rule f.selections := by
  obtain ⟨-, hne, hf⟩ := exists_of_mem_fragmentsFor h hf
  rw [hf]
  exact Fragment.setObeys_shallow href (.of_ne_nil hne fun s hs => hevents (h.found hs))

end NodeFragments

end RemoteNodes
