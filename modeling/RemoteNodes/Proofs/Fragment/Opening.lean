import RemoteNodes.Proofs.Fragment.Complete
import RemoteNodes.Proofs.Selection.Usable
/-!
The fragments that inlining opens, and whether a query can ask for what it makes of selections.

* `Inlining.Opens`: the fragments that inlining of selections opens: those that are spread, and what
  these lead to.
* `Inlining.opens_singleton`: nothing is lost by not opening a fragment twice around a place.
* `Inlining.usableIn_inlineAll_iff`: **what inlining makes of selections can be asked for exactly if
  they can, and all that it opens**.
* `Inlining.exists_find?_of_opens`, `Inlining.conditionedIn_inlineAll`: what else inlining keeps.
-/

namespace RemoteNodes

open Relation

/-- What is reached from a place can be reached without coming back to it. -/
lemma reflTransGen_ne_of_reflTransGen {α : Type} {r : α → α → Prop} {a b : α}
    (h : ReflTransGen r a b) :
    b = a ∨ ∃ c, r a c ∧ c ≠ a ∧ ReflTransGen (fun x y => y ≠ a ∧ r x y) c b := by
  induction h with
  | refl => exact .inl rfl
  | @tail b c hab hbc ih =>
      by_cases hc : c = a
      · exact .inl hc
      · rcases ih with rfl | ⟨d, had, hd, hdb⟩
        · exact .inr ⟨c, hbc, hc, .refl⟩
        · exact .inr ⟨d, had, hd, hdb.tail ⟨hc, hbc⟩⟩

namespace Inlining

/-- What stands for a name spreads the fragment of another name, which is not open. -/
def Leads (x : Inlining) (around : List String) (name name' : String) : Prop :=
  name' ∉ around ∧ ∃ f, x.find? name = some f ∧ name' ∈ spreadNamesIn f.selections

/-- Inlining opens the fragment of a name, which is spread by one of the names or by what stands for
a name that has been opened. -/
def Opens (x : Inlining) (around names : List String) (name : String) : Prop :=
  ∃ first ∈ names, first ∉ around ∧ ReflTransGen (x.Leads around) first name

/-- What stands for a name can be asked for. -/
def UsableName (x : Inlining) (schema : Schema) (name : String) : Prop :=
  ∀ f, x.find? name = some f → SetUsable schema (schema.composite? name) f.selections

variable {schema : Schema} {x : Inlining} {around names names' : List String} {name : String}
  {f : Fragment} {parent? : Option NamedType} {ss ss' : List Selection}

lemma not_opens_nil : ¬ x.Opens around [] name := by
  rintro ⟨first, hfirst, -⟩
  cases hfirst

lemma opens_append : x.Opens around (names ++ names') name
    ↔ x.Opens around names name ∨ x.Opens around names' name := by
  simp only [Opens, List.mem_append, or_and_right, exists_or]

/-- Nothing is opened that is open. -/
lemma not_opens_of_mem {opened : String} (hopened : opened ∈ around) :
    ¬ x.Opens around [opened] name := by
  rintro ⟨first, hfirst, hclosed, -⟩
  rw [List.mem_singleton.mp hfirst] at hclosed
  exact hclosed hopened

/-- Opening a fragment opens it and, while it is open, what it leads to. -/
lemma opens_singleton {opened : String} (hopened : opened ∉ around)
    (hf : x.find? opened = some f) :
    x.Opens around [opened] name
      ↔ name = opened ∨ x.Opens (opened :: around) (spreadNamesIn f.selections) name := by
  have hleads {a b : String} :
      x.Leads (opened :: around) a b ↔ b ≠ opened ∧ x.Leads around a b := by
    simp only [Leads, List.mem_cons, not_or, and_assoc, ne_eq]
  constructor
  · rintro ⟨first, hfirst, -, h⟩
    obtain rfl := List.mem_singleton.mp hfirst
    -- a way that comes back to the fragment can be cut at its last visit
    refine (reflTransGen_ne_of_reflTransGen h).imp_right ?_
    rintro ⟨next, ⟨hnext, g, hg, hspread⟩, hne, h⟩
    obtain rfl := Option.some.inj (hf.symm.trans hg)
    exact ⟨next, hspread, by simp [hne, hnext], ReflTransGen.mono (fun _ _ => hleads.mpr) _ _ h⟩
  · rintro (rfl | ⟨first, hfirst, hclosed, h⟩)
    · exact ⟨name, List.mem_singleton_self _, hopened, .refl⟩
    · rw [List.mem_cons, not_or] at hclosed
      refine ⟨opened, List.mem_singleton_self _, hopened, .head ⟨hclosed.2, f, hf, hfirst⟩ ?_⟩
      exact ReflTransGen.mono (fun _ _ hab => (hleads.mp hab).2) _ _ h

/-- Inlining of selections that succeeds gives one for each. -/
lemma ne_nil_iff_of_inlineAll (h : x.inlineAll around ss = .ok ss') : ss' ≠ [] ↔ ss ≠ [] := by
  rw [inlineAll_eq_mapM] at h
  have hlength := (mapM_eq_ok.mp h).length_eq
  rw [← List.length_pos_iff, ← List.length_pos_iff, hlength]

/-- **What inlining makes of selections can be asked for exactly if** they can, and what stands for
every name that it opens. -/
theorem usableIn_inlineAll_iff (h : x.inlineAll around ss = .ok ss') :
    UsableIn schema parent? ss'
      ↔ UsableIn schema parent? ss
        ∧ ∀ name, x.Opens around (spreadNamesIn ss) name → x.UsableName schema name := by
  -- inlining neither empties a set nor fills an empty one
  have hset {around : List String} {ss ss' : List Selection} {parent? : Option NamedType}
      (h : x.inlineAll around ss = .ok ss')
      (ih : UsableIn schema parent? ss' ↔ UsableIn schema parent? ss
        ∧ ∀ name, x.Opens around (spreadNamesIn ss) name → x.UsableName schema name) :
      SetUsable schema parent? ss' ↔ SetUsable schema parent? ss
        ∧ ∀ name, x.Opens around (spreadNamesIn ss) name → x.UsableName schema name := by
    rw [SetUsable, SetUsable, ne_nil_iff_of_inlineAll h, ih, and_assoc]
  induction around, ss using Inlining.inlineAll.induct x
    (fun around s => ∀ s' parent?, x.inline around s = .ok s' →
      (s'.Usable schema parent? ↔ s.Usable schema parent?
        ∧ ∀ name, x.Opens around s.spreadNames name → x.UsableName schema name))
    generalizing parent? ss' with
  | case1 around alias? name as ds s' parent? h =>
      rw [inline] at h
      cases h
      rw [Selection.spreadNames]
      simp only [not_opens_nil, false_implies, implies_true, and_true]
  | case2 around alias? name as ds ss ih s' parent? h =>
      obtain ⟨ss', hinner, rfl⟩ := exists_of_inline_field h
      rw [Selection.usable_composite, Selection.usable_composite, Selection.spreadNames]
      exact hset hinner (ih hinner)
  | case3 around condition? ds ss ih s' parent? h =>
      obtain ⟨ss', hinner, rfl⟩ := exists_of_inline_inline h
      rw [Selection.usable_inline, Selection.usable_inline, Selection.spreadNames]
      exact hset hinner (ih hinner)
  | case4 around name ds hopen s' parent? h =>
      have hmem : name ∈ around := by simpa using hopen
      rw [inline_of_mem hmem] at h
      cases h
      rw [Selection.spreadNames]
      simp only [not_opens_of_mem hmem, false_implies, implies_true, and_true,
        Selection.usable_spread, cut, Selection.usable_leaf, true_or]
  | case5 around name ds hopen hf s' parent? h =>
      rw [inline_of_find?_eq_none (by simpa using hopen) hf] at h
      cases h
  | case6 around name ds hopen f hf ih s' parent? h =>
      have hname : name ∉ around := by simpa using hopen
      obtain ⟨g, inner, hg, hinner, rfl⟩ := exists_opened h hname
      obtain rfl := Option.some.inj (hf.symm.trans hg)
      have hstands : x.UsableName schema name
          ↔ SetUsable schema (schema.composite? name) f.selections := by
        simp only [UsableName, hf, Option.some.injEq, forall_eq']
      rw [Selection.usable_inline, Selection.spreadNames]
      refine (hset hinner (ih hinner)).trans ?_
      simp only [opens_singleton hname hf, forall_eq_or_imp, hstands, Selection.usable_spread,
        true_and]
      exact Iff.rfl
  | case7 =>
      rw [inlineAll] at h
      cases h
      simp only [spreadNamesIn, not_opens_nil, false_implies, implies_true, and_true]
  | case8 around s ss fault hfault =>
      rw [inlineAll, hfault] at h
      cases h
  | case9 around s ss _ _ ih ihrest =>
      obtain ⟨s', rest, hs', hrest, rfl⟩ := exists_of_inlineAll_cons h
      have hafter : UsableIn schema parent? rest ↔ _ := ihrest hrest
      rw [UsableIn, UsableIn, spreadNamesIn, ih s' parent? hs', hafter]
      simp only [opens_append, or_imp, forall_and]
      exact and_and_and_comm

/-- Inlining that succeeds finds what stands for every name that it opens. -/
theorem exists_find?_of_opens (h : x.inlineAll around ss = .ok ss')
    (hname : x.Opens around (spreadNamesIn ss) name) : ∃ f, x.find? name = some f := by
  induction around, ss using Inlining.inlineAll.induct x
    (fun around s => ∀ s', x.inline around s = .ok s' → x.Opens around s.spreadNames name →
      ∃ f, x.find? name = some f) generalizing ss' with
  | case1 around alias? name' as ds s' h hname =>
      rw [Selection.spreadNames] at hname
      exact absurd hname not_opens_nil
  | case2 around alias? name' as ds ss ih s' h hname =>
      obtain ⟨ss', hinner, -⟩ := exists_of_inline_field h
      rw [Selection.spreadNames] at hname
      exact ih hinner hname
  | case3 around condition? ds ss ih s' h hname =>
      obtain ⟨ss', hinner, -⟩ := exists_of_inline_inline h
      rw [Selection.spreadNames] at hname
      exact ih hinner hname
  | case4 around name' ds hopen s' h hname =>
      rw [Selection.spreadNames] at hname
      exact absurd hname (not_opens_of_mem (by simpa using hopen))
  | case5 around name' ds hopen hf s' h hname =>
      rw [inline_of_find?_eq_none (by simpa using hopen) hf] at h
      cases h
  | case6 around name' ds hopen f hf ih s' h hname =>
      have hclosed : name' ∉ around := by simpa using hopen
      obtain ⟨g, inner, hg, hinner, -⟩ := exists_opened h hclosed
      obtain rfl := Option.some.inj (hf.symm.trans hg)
      rw [Selection.spreadNames, opens_singleton hclosed hf] at hname
      rcases hname with rfl | hname
      · exact ⟨f, hf⟩
      · exact ih hinner hname
  | case7 => exact absurd hname not_opens_nil
  | case8 around s ss fault hfault =>
      rw [inlineAll, hfault] at h
      cases h
  | case9 around s ss _ _ ih ihrest =>
      obtain ⟨s', rest, hs', hrest, -⟩ := exists_of_inlineAll_cons h
      rw [spreadNamesIn, opens_append] at hname
      exact hname.elim (ih s' hs') (ihrest hrest)

/-- Every inline fragment that inlining puts in names the type that it is for. -/
lemma conditionedIn_inlineAll
    (hfound : ∀ name f, x.find? name = some f → ConditionedIn f.selections)
    (h : x.inlineAll around ss = .ok ss') (hss : ConditionedIn ss) : ConditionedIn ss' := by
  induction around, ss using Inlining.inlineAll.induct x
    (fun around s => ∀ s', x.inline around s = .ok s' → s.Conditioned → s'.Conditioned)
    generalizing ss' with
  | case1 around alias? name as ds s' h hs =>
      rw [inline] at h
      cases h
      exact hs
  | case2 around alias? name as ds ss ih s' h hs =>
      obtain ⟨ss', hinner, rfl⟩ := exists_of_inline_field h
      exact Selection.conditioned_composite.mpr (ih hinner (Selection.conditioned_composite.mp hs))
  | case3 around condition? ds ss ih s' h hs =>
      obtain ⟨ss', hinner, rfl⟩ := exists_of_inline_inline h
      obtain ⟨hcondition, hss⟩ := Selection.conditioned_inline.mp hs
      exact Selection.conditioned_inline.mpr ⟨hcondition, ih hinner hss⟩
  | case4 around name ds hopen s' h hs =>
      rw [inline_of_mem (by simpa using hopen)] at h
      cases h
      exact Selection.conditioned_leaf
  | case5 around name ds hopen hf s' h hs =>
      rw [inline_of_find?_eq_none (by simpa using hopen) hf] at h
      cases h
  | case6 around name ds hopen f hf ih s' h hs =>
      obtain ⟨g, inner, hg, hinner, rfl⟩ := exists_opened h (by simpa using hopen)
      obtain rfl := Option.some.inj (hf.symm.trans hg)
      exact Selection.conditioned_inline.mpr ⟨rfl, ih hinner (hfound name f hf)⟩
  | case7 =>
      rw [inlineAll] at h
      cases h
      trivial
  | case8 around s ss fault hfault =>
      rw [inlineAll, hfault] at h
      cases h
  | case9 around s ss _ _ ih ihrest =>
      obtain ⟨s', rest, hs', hrest, rfl⟩ := exists_of_inlineAll_cons h
      exact ⟨ih s' hs' hss.1, ihrest hrest hss.2⟩

end Inlining

end RemoteNodes
