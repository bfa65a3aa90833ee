import Mathlib.Tactic
import RemoteNodes.Proofs.Selection.Rule
import RemoteNodes.Selection.Inclusion
/-!
What the inclusion of selections says, selection by selection.

* `exists_includes_of_mem`: each selection of an included set is included in one of the other set.
* `Selection.exists_of_includes_leaf`, `exists_of_includes_composite`, `exists_of_includes_spread`,
  `exists_of_includes_inline`: what a selection is that includes a leaf, a field, a spread or an
  inline fragment. Directives count, except those of spreads.
* `Selection.includes_self`, `Selection.includes_trans`: **inclusion is a preorder**.
* `spreadNamesIn_subset_of_include`: **an included set spreads nothing that the other one does not
  spread**.
-/

namespace RemoteNodes

lemma anyIncludes_iff {ss : List Selection} {t : Selection} :
    anyIncludes ss t = true ↔ ∃ s ∈ ss, s.includes t = true := by
  induction ss with
  | nil => simp [anyIncludes]
  | cons s ss ih => simp [anyIncludes, ih]

lemma selectionsInclude_iff {ss ts : List Selection} :
    selectionsInclude ss ts = true ↔ ∀ t ∈ ts, ∃ s ∈ ss, s.includes t = true := by
  simp only [selectionsInclude, List.all_eq_true, anyIncludes_iff]

lemma exists_includes_of_mem {ss ts : List Selection} (h : selectionsInclude ss ts = true)
    {t : Selection} (ht : t ∈ ts) : ∃ s ∈ ss, s.includes t = true :=
  selectionsInclude_iff.mp h t ht

namespace Selection

variable {s : Selection} {alias? alias?' condition? condition?' : Option String}
  {name name' fragment fragment' : String} {arguments arguments' : List Argument}
  {directives directives' : List Directive} {ss ss' : List Selection}

/-! ### Selections of one shape -/

lemma includes_leaf : (field alias? name arguments directives none).includes
      (field alias?' name' arguments' directives' none)
    = (alias? == alias?' && name == name' && sameArguments arguments arguments'
      && sameDirectives directives directives') := rfl

lemma includes_composite : (field alias? name arguments directives (some ss)).includes
      (field alias?' name' arguments' directives' (some ss'))
    = (alias? == alias?' && name == name' && sameArguments arguments arguments'
      && sameDirectives directives directives' && selectionsInclude ss ss') := rfl

lemma includes_inline :
    (inline condition? directives ss).includes (inline condition?' directives' ss')
    = (condition? == condition?' && sameDirectives directives directives'
      && selectionsInclude ss ss') := rfl

lemma includes_spread_iff : (spread fragment directives).includes (spread fragment' directives')
    ↔ fragment = fragment' := beq_iff_eq

lemma includes_leaf_iff : (field alias? name arguments directives none).includes
      (field alias? name arguments' directives' none) = true
    ↔ sameArguments arguments arguments' = true ∧ sameDirectives directives directives' = true := by
  simp only [includes_leaf, beq_self_eq_true, Bool.true_and, Bool.and_eq_true]

lemma includes_composite_iff : (field alias? name arguments directives (some ss)).includes
      (field alias? name arguments' directives' (some ss')) = true
    ↔ sameArguments arguments arguments' = true ∧ sameDirectives directives directives' = true
      ∧ selectionsInclude ss ss' = true := by
  simp only [includes_composite, beq_self_eq_true, Bool.true_and, Bool.and_eq_true, and_assoc]

lemma includes_inline_iff :
    (inline condition? directives ss).includes (inline condition? directives' ss') = true
    ↔ sameDirectives directives directives' = true ∧ selectionsInclude ss ss' = true := by
  simp only [includes_inline, beq_self_eq_true, Bool.true_and, Bool.and_eq_true]

lemma includes_spread :
    (spread fragment directives).includes (spread fragment directives') = true :=
  includes_spread_iff.mpr rfl

/-! ### What includes a selection -/

/-- What includes a leaf is a leaf of the same key, with the same arguments and directives. -/
lemma exists_of_includes_leaf (h : s.includes (field alias? name arguments directives none)) :
    ∃ arguments' directives', s = field alias? name arguments' directives' none
      ∧ sameArguments arguments' arguments = true
      ∧ sameDirectives directives' directives = true := by
  cases s with
  | field alias?' name' arguments' directives' selections? =>
      cases selections? with
      | none =>
          simp only [includes_leaf, Bool.and_eq_true, beq_iff_eq] at h
          obtain ⟨⟨⟨rfl, rfl⟩, harguments⟩, hdirectives⟩ := h
          exact ⟨arguments', directives', rfl, harguments, hdirectives⟩
      | some ss => cases h
  | spread _ _ | inline _ _ _ => cases h

/-- What includes a field is a field of the same key, with the same arguments and directives, whose
set includes its set. -/
lemma exists_of_includes_composite
    (h : s.includes (field alias? name arguments directives (some ss))) :
    ∃ arguments' directives' ss', s = field alias? name arguments' directives' (some ss')
      ∧ sameArguments arguments' arguments = true ∧ sameDirectives directives' directives = true
      ∧ selectionsInclude ss' ss = true := by
  cases s with
  | field alias?' name' arguments' directives' selections? =>
      cases selections? with
      | none => cases h
      | some ss' =>
          simp only [includes_composite, Bool.and_eq_true, beq_iff_eq] at h
          obtain ⟨⟨⟨⟨rfl, rfl⟩, harguments⟩, hdirectives⟩, hss⟩ := h
          exact ⟨arguments', directives', ss', rfl, harguments, hdirectives, hss⟩
  | spread _ _ | inline _ _ _ => cases h

/-- What includes a spread is a spread of the same fragment, under any directives. -/
lemma exists_of_includes_spread (h : s.includes (spread fragment directives)) :
    ∃ directives', s = spread fragment directives' := by
  cases s with
  | spread fragment' directives' =>
      exact ⟨directives', by rw [includes_spread_iff.mp h]⟩
  | field _ _ _ _ selections? => cases selections? <;> cases h
  | inline _ _ _ => cases h

/-- What includes an inline fragment is one of the same condition, with the same directives, whose
set includes its set. -/
lemma exists_of_includes_inline (h : s.includes (inline condition? directives ss)) :
    ∃ directives' ss', s = inline condition? directives' ss'
      ∧ sameDirectives directives' directives = true ∧ selectionsInclude ss' ss = true := by
  cases s with
  | inline condition?' directives' ss' =>
      simp only [includes_inline, Bool.and_eq_true, beq_iff_eq] at h
      obtain ⟨⟨rfl, hdirectives⟩, hss⟩ := h
      exact ⟨directives', ss', rfl, hdirectives, hss⟩
  | field _ _ _ _ selections? => cases selections? <;> cases h
  | spread _ _ => cases h

end Selection

/-! ### A preorder -/

lemma sameTexts_self (texts : List String) : sameTexts texts texts = true :=
  List.isPerm_iff.mpr (.refl texts)

lemma sameTexts_trans {a b c : List String} (hab : sameTexts a b = true)
    (hbc : sameTexts b c = true) : sameTexts a c = true :=
  List.isPerm_iff.mpr ((List.isPerm_iff.mp hab).trans (List.isPerm_iff.mp hbc))

/-- A selection includes itself. -/
theorem Selection.includes_self (s : Selection) : s.includes s = true := by
  have hset {ss : List Selection} (hss : ∀ s ∈ ss, s.includes s = true) :
      selectionsInclude ss ss = true :=
    selectionsInclude_iff.mpr fun s hs => ⟨s, hs, hss s hs⟩
  induction s using Selection.induct with
  | leaf alias? name arguments directives =>
      exact includes_leaf_iff.mpr ⟨sameTexts_self _, sameTexts_self _⟩
  | composite alias? name arguments directives ss ih =>
      exact includes_composite_iff.mpr ⟨sameTexts_self _, sameTexts_self _, hset ih⟩
  | spread fragment directives => exact includes_spread
  | inline condition? directives ss ih =>
      exact includes_inline_iff.mpr ⟨sameTexts_self _, hset ih⟩

/-- What includes a selection includes all that this one includes. -/
theorem Selection.includes_trans {a b c : Selection} (hab : a.includes b = true)
    (hbc : b.includes c = true) : a.includes c = true := by
  have hset {as bs cs : List Selection} (hab : selectionsInclude as bs = true)
      (hbc : selectionsInclude bs cs = true)
      (ih : ∀ c ∈ cs, ∀ a b : Selection, a.includes b = true → b.includes c = true →
        a.includes c = true) : selectionsInclude as cs = true := by
    refine selectionsInclude_iff.mpr fun c hc => ?_
    obtain ⟨b, hb, hbc⟩ := exists_includes_of_mem hbc hc
    obtain ⟨a, ha, hab⟩ := exists_includes_of_mem hab hb
    exact ⟨a, ha, ih c hc a b hab hbc⟩
  induction c using Selection.induct generalizing a b with
  | leaf alias? name arguments directives =>
      obtain ⟨arguments', directives', rfl, harguments, hdirectives⟩ := exists_of_includes_leaf hbc
      obtain ⟨arguments'', directives'', rfl, harguments', hdirectives'⟩ :=
        exists_of_includes_leaf hab
      exact includes_leaf_iff.mpr
        ⟨sameTexts_trans harguments' harguments, sameTexts_trans hdirectives' hdirectives⟩
  | composite alias? name arguments directives cs ih =>
      obtain ⟨arguments', directives', bs, rfl, harguments, hdirectives, hbs⟩ :=
        exists_of_includes_composite hbc
      obtain ⟨arguments'', directives'', as, rfl, harguments', hdirectives', has⟩ :=
        exists_of_includes_composite hab
      exact includes_composite_iff.mpr ⟨sameTexts_trans harguments' harguments,
        sameTexts_trans hdirectives' hdirectives, hset has hbs fun c hc a b => ih c hc⟩
  | spread fragment directives =>
      obtain ⟨directives', rfl⟩ := exists_of_includes_spread hbc
      obtain ⟨directives'', rfl⟩ := exists_of_includes_spread hab
      exact includes_spread
  | inline condition? directives cs ih =>
      obtain ⟨directives', bs, rfl, hdirectives, hbs⟩ := exists_of_includes_inline hbc
      obtain ⟨directives'', as, rfl, hdirectives', has⟩ := exists_of_includes_inline hab
      exact includes_inline_iff.mpr
        ⟨sameTexts_trans hdirectives' hdirectives, hset has hbs fun c hc a b => ih c hc⟩

lemma selectionsInclude_self (ss : List Selection) : selectionsInclude ss ss = true :=
  selectionsInclude_iff.mpr fun s hs => ⟨s, hs, s.includes_self⟩

lemma selectionsInclude_trans {as bs cs : List Selection} (hab : selectionsInclude as bs = true)
    (hbc : selectionsInclude bs cs = true) : selectionsInclude as cs = true := by
  refine selectionsInclude_iff.mpr fun c hc => ?_
  obtain ⟨b, hb, hbc⟩ := exists_includes_of_mem hbc hc
  obtain ⟨a, ha, hab⟩ := exists_includes_of_mem hab hb
  exact ⟨a, ha, Selection.includes_trans hab hbc⟩

/-! ### Spreads -/

namespace Selection

variable {s : Selection}

private lemma spreadNamesIn_subset {ss ts : List Selection}
    (h : selectionsInclude ss ts = true)
    (heach : ∀ t ∈ ts, ∀ s : Selection, s.includes t = true → t.spreadNames ⊆ s.spreadNames) :
    spreadNamesIn ts ⊆ spreadNamesIn ss := by
  intro n hn
  obtain ⟨t, ht, hn⟩ := mem_spreadNamesIn.mp hn
  obtain ⟨s, hs, hincludes⟩ := exists_includes_of_mem h ht
  exact mem_spreadNamesIn.mpr ⟨s, hs, heach t ht s hincludes hn⟩

/-- An included selection spreads nothing that the other one does not spread. -/
lemma spreadNames_subset_of_includes {t : Selection} (h : s.includes t = true) :
    t.spreadNames ⊆ s.spreadNames := by
  induction t using Selection.induct generalizing s with
  | leaf alias? name arguments directives =>
      rw [spreadNames]
      exact List.nil_subset _
  | composite alias? name arguments directives ts ih =>
      obtain ⟨arguments', directives', ss', rfl, -, -, hinclude⟩ := exists_of_includes_composite h
      rw [spreadNames, spreadNames]
      exact spreadNamesIn_subset hinclude fun t ht s => ih t ht
  | spread fragment directives =>
      obtain ⟨directives', rfl⟩ := exists_of_includes_spread h
      rw [spreadNames, spreadNames]
      exact List.Subset.refl _
  | inline condition? directives ts ih =>
      obtain ⟨directives', ss', rfl, -, hinclude⟩ := exists_of_includes_inline h
      rw [spreadNames, spreadNames]
      exact spreadNamesIn_subset hinclude fun t ht s => ih t ht

end Selection

/-- An included set spreads nothing that the other one does not spread. -/
lemma spreadNamesIn_subset_of_include {ss ts : List Selection}
    (h : selectionsInclude ss ts = true) : spreadNamesIn ts ⊆ spreadNamesIn ss := by
  refine Selection.spreadNamesIn_subset h fun t _ s hincludes => ?_
  exact Selection.spreadNames_subset_of_includes hincludes

end RemoteNodes
