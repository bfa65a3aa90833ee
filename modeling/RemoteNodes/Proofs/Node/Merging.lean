import Mathlib.Tactic
import RemoteNodes.Proofs.Node.Declared
/-!
What is left of fields that are merged: their names, with the names inside, and nothing else.

* `Selection.Bare`: a field without alias, arguments and directives, as are those inside it;
  `bare_of_mem_mergeAll`: **merging leaves such fields only**.
* `Selection.CoveredBy`: a selection whose fields are found in a set by their names;
  `coveredBy_mergeAll`: **whatever is merged is found again**.
* `TypenamesPlain`: selections with type names at the top only as they are in references;
  `TypenamesPlain.mergeAll`: merging keeps them so.
* `exists_merged_of_get?`: **the reference that is made on a type above a node type is merged of
  references, that of the node type among them**.
-/

namespace RemoteNodes

variable {merged ss : List Selection} {s x : Selection} {name : String}

/-! ### Looking up fields -/

/-- A field of the name stands in a set. -/
def HasField (name : String) (ss : List Selection) : Prop :=
  ∃ alias? arguments directives selections?,
    .field alias? name arguments directives selections? ∈ ss

lemma hasField_cons : HasField name (s :: ss) ↔ HasField name [s] ∨ HasField name ss := by
  simp only [HasField, List.mem_cons, List.not_mem_nil, or_false, exists_or]

lemma hasField_putField (selections? : Option (List Selection)) :
    HasField name (putField name selections? merged) := by
  have hfirst (ss : List Selection) : HasField name (.plain name selections? :: ss) :=
    ⟨none, [], [], selections?, List.mem_cons_self⟩
  induction merged with
  | nil => exact hfirst []
  | cons x merged ih =>
      cases x with
      | field alias? name' arguments directives selections?' =>
          rw [putField]
          split
          · exact hfirst merged
          · exact hasField_cons.mpr (.inr ih)
      | spread _ _ | inline _ _ _ => exact hasField_cons.mpr (.inr ih)

/-- Setting a field takes none away. -/
lemma HasField.putField (h : HasField name merged) (name' : String)
    (selections? : Option (List Selection)) :
    HasField name (putField name' selections? merged) := by
  by_cases hname : name' = name
  · exact hname ▸ hasField_putField selections?
  · induction merged with
    | nil =>
        obtain ⟨_, _, _, _, hs⟩ := h
        cases hs
    | cons x merged ih =>
        have hkept (h : HasField name (x :: merged)) :
            HasField name (x :: RemoteNodes.putField name' selections? merged) :=
          hasField_cons.mpr ((hasField_cons.mp h).imp_right ih)
        cases x with
        | field alias? other arguments directives selections?' =>
            rw [RemoteNodes.putField]
            split
            · rename_i hother
              -- the field that gives way has another name
              refine hasField_cons.mpr (.inr ((hasField_cons.mp h).resolve_left ?_))
              rintro ⟨_, _, _, _, hs⟩
              cases List.mem_singleton.mp hs
              exact hname (beq_iff_eq.mp hother).symm
            · exact hkept h
        | spread _ _ | inline _ _ _ => exact hkept h

lemma selectionsOf_putField (name' : String) (selections? : Option (List Selection)) :
    selectionsOf name (putField name' selections? merged)
      = if name' = name then selections? else selectionsOf name merged := by
  induction merged with
  | nil => by_cases h : name' = name <;> simp [putField, selectionsOf, Selection.plain, h]
  | cons x merged ih =>
      cases x with
      | field alias? other arguments directives selections?' =>
          rw [putField]
          by_cases hother : other = name'
          · subst hother
            by_cases h : other = name <;> simp [selectionsOf, Selection.plain, h]
          · rw [if_neg (by simpa using hother), selectionsOf, selectionsOf, ih]
            by_cases h : other = name
            · subst h
              simp [Ne.symm hother]
            · simp [h]
      | spread _ _ | inline _ _ _ => simpa [putField, selectionsOf] using ih

/-! ### What is merged is found again -/

mutual
/-- The fields of a selection are found in a set by their names, and what is inside them within. -/
def Selection.CoveredBy (merged : List Selection) : Selection → Prop
  | .field _ name _ _ none => HasField name merged
  | .field _ name _ _ (some selections) =>
    ∃ within, selectionsOf name merged = some within ∧ AllCoveredBy within selections
  | .spread .. => True
  | .inline .. => True
/-- The fields of selections are found in a set by their names. -/
def AllCoveredBy (merged : List Selection) : List Selection → Prop
  | [] => True
  | s :: ss => s.CoveredBy merged ∧ AllCoveredBy merged ss
end

lemma allCoveredBy_iff : AllCoveredBy merged ss ↔ ∀ s ∈ ss, s.CoveredBy merged := by
  induction ss with
  | nil => simp [AllCoveredBy]
  | cons s ss ih => rw [AllCoveredBy, ih, List.forall_mem_cons]

/-- What is found in a set is found in it once more is merged into it. -/
lemma Selection.CoveredBy.mergeInto (h : s.CoveredBy merged) (s' : Selection) :
    s.CoveredBy (mergeInto merged s') := by
  induction s using Selection.induct generalizing merged s' with
  | leaf alias? name arguments directives =>
      rw [CoveredBy] at h ⊢
      cases s' with
      | field _ _ _ _ selections? => cases selections? <;> exact h.putField _ _
      | spread _ _ | inline _ _ _ => exact h
  | composite alias? name arguments directives ss ih =>
      rw [CoveredBy] at h ⊢
      obtain ⟨within, hwithin, hss⟩ := h
      cases s' with
      | field _ name' _ _ selections? =>
          cases selections? with
          | none =>
              refine ⟨within, ?_, hss⟩
              rw [RemoteNodes.mergeInto, selectionsOf_putField]
              split
              · rename_i hname
                rw [hname, hwithin]
              · exact hwithin
          | some ss' =>
              rw [RemoteNodes.mergeInto, selectionsOf_putField]
              split
              · rename_i hname
                refine ⟨_, rfl, allCoveredBy_iff.mpr fun s hs => ?_⟩
                rw [hname, hwithin]
                exact mergeAll_induct (motive := s.CoveredBy) (allCoveredBy_iff.mp hss s hs)
                  fun s' _ merged h => ih s hs h s'
              · exact ⟨within, hwithin, hss⟩
      | spread _ _ | inline _ _ _ => exact ⟨within, hwithin, hss⟩
  | spread fragment directives => rw [CoveredBy]; trivial
  | inline condition? directives ss => rw [CoveredBy]; trivial

private lemma coveredBy_mergeAll_of_mem (hs : s ∈ ss)
    (hmerge : ∀ merged, s.CoveredBy (mergeInto merged s)) : s.CoveredBy (mergeAll merged ss) := by
  induction ss generalizing merged with
  | nil => cases hs
  | cons s' ss ih =>
      rw [mergeAll]
      rcases List.mem_cons.mp hs with rfl | hs
      · exact mergeAll_induct (motive := s.CoveredBy) (hmerge merged) fun s' _ _ h => h.mergeInto s'
      · exact ih hs

/-- Whatever is merged is found in the merged set. -/
theorem coveredBy_mergeAll (hs : s ∈ ss) : s.CoveredBy (mergeAll merged ss) := by
  refine coveredBy_mergeAll_of_mem hs fun merged => ?_
  induction s using Selection.induct generalizing merged ss with
  | leaf alias? name arguments directives =>
      rw [Selection.CoveredBy, mergeInto]
      exact hasField_putField _
  | composite alias? name arguments directives inner ih =>
      rw [Selection.CoveredBy, mergeInto, selectionsOf_putField, if_pos rfl]
      exact ⟨_, rfl, allCoveredBy_iff.mpr fun s hs =>
        coveredBy_mergeAll_of_mem hs fun merged => ih s hs hs merged⟩
  | spread fragment directives => rw [Selection.CoveredBy]; trivial
  | inline condition? directives inner => rw [Selection.CoveredBy]; trivial

/-! ### What is left of fields -/

/-- A field without alias, arguments and directives, as are those inside it. -/
inductive Selection.Bare : Selection → Prop
  | leaf (name : String) : Bare (.plain name)
  | composite {name : String} {ss : List Selection} (h : ∀ s ∈ ss, Bare s) :
      Bare (.plain name (some ss))

lemma Selection.Bare.field {alias? : Option String} {name : String} {arguments : List Argument}
    {directives : List Directive} {selections? : Option (List Selection)}
    (h : (Selection.field alias? name arguments directives selections?).Bare) :
    alias? = none ∧ arguments = [] ∧ ∀ ss, selections? = some ss → ∀ s ∈ ss, s.Bare := by
  cases h with
  | leaf => exact ⟨rfl, rfl, fun _ h => nomatch h⟩
  | composite h => exact ⟨rfl, rfl, fun _ heq => Option.some.inj heq ▸ h⟩

lemma Selection.Bare.of_selectionsOf (hmerged : ∀ x ∈ merged, x.Bare)
    (h : selectionsOf name merged = some ss) : ∀ s ∈ ss, s.Bare := by
  obtain ⟨_, _, _, hmem⟩ := mem_of_selectionsOf h
  exact (hmerged _ hmem).field.2.2 ss rfl

lemma bare_of_mem_mergeInto (hmerged : ∀ x ∈ merged, x.Bare) (hx : x ∈ mergeInto merged s) :
    x.Bare := by
  induction s using Selection.induct generalizing merged x with
  | leaf alias? name arguments directives =>
      rcases mem_putField hx with rfl | hx
      · cases h : selectionsOf name merged with
        | none => exact .leaf name
        | some before => exact .composite (Selection.Bare.of_selectionsOf hmerged h)
      · exact hmerged x hx
  | composite alias? name arguments directives ss ih =>
      rw [mergeInto] at hx
      rcases mem_putField hx with rfl | hx
      · refine .composite (mergeAll_induct (motive := fun merged => ∀ x ∈ merged, x.Bare) ?_
          fun s hs merged h x => ih s hs h)
        cases h : selectionsOf name merged with
        | none => simp
        | some before => exact Selection.Bare.of_selectionsOf hmerged h
      · exact hmerged x hx
  | spread fragment directives => exact hmerged x hx
  | inline condition? directives ss => exact hmerged x hx

/-- Merging leaves bare fields only. -/
theorem bare_of_mem_mergeAll (hx : x ∈ mergeAll [] ss) : x.Bare :=
  mergeAll_induct (motive := fun merged => ∀ x ∈ merged, x.Bare) (by simp)
    (fun _ _ _ hmerged _ => bare_of_mem_mergeInto hmerged) x hx

/-! ### Type names -/

/-- Type names are selected in the plain form that they have in references. -/
def TypenamesPlain (ss : List Selection) : Prop :=
  ∀ s ∈ ss, s.isTypename = true → s = .plain "__typename"

lemma TypenamesPlain.mergeInto (hmerged : TypenamesPlain merged)
    (hs : s.isTypename = true → s = .plain "__typename") : TypenamesPlain (mergeInto merged s) := by
  cases s with
  | field alias? name arguments directives selections? =>
      have hput {selections?' : Option (List Selection)}
          (hnew : name = "__typename" → selections?' = none) :
          TypenamesPlain (RemoteNodes.putField name selections?' merged) := by
        intro x hx htypename
        rcases mem_putField hx with rfl | hx
        · obtain rfl : name = "__typename" := beq_iff_eq.mp htypename
          rw [hnew rfl]
        · exact hmerged x hx htypename
      have hplain (hname : name = "__typename") : selections? = none := by
        have heq := hs (beq_iff_eq.mpr hname)
        simp only [Selection.plain, Selection.field.injEq] at heq
        exact heq.2.2.2.2
      cases selections? with
      | none =>
          refine hput fun hname => ?_
          -- no type name among those before has selections
          cases h : selectionsOf name merged with
          | none => rfl
          | some before =>
              obtain ⟨_, _, _, hmem⟩ := mem_of_selectionsOf h
              cases hmerged _ hmem (beq_iff_eq.mpr hname)
      | some ss => exact hput fun hname => absurd (hplain hname) (by simp)
  | spread _ _ | inline _ _ _ => exact hmerged

/-- Merging keeps type names plain. -/
lemma TypenamesPlain.mergeAll (hmerged : TypenamesPlain merged) (hss : TypenamesPlain ss) :
    TypenamesPlain (mergeAll merged ss) :=
  mergeAll_induct (motive := TypenamesPlain) hmerged fun s hs _ h => h.mergeInto (hss s hs)

/-! ### References of interfaces -/

lemma typenamesPlain_reference (idFragment : Fragment) (type : String) :
    TypenamesPlain (idFragment.reference type).selections := by
  intro s hs htypename
  rcases List.mem_cons.mp hs with rfl | hs
  · rfl
  · simp [htypename] at hs

/-- **The reference that is made on a type above a node type is merged of references**, that of the
node type among them. -/
theorem exists_merged_of_get? {schema : Schema} {declarations : List NodeDeclaration}
    {references : References} {above node : String} {reference : Fragment}
    (hschema : schema.Lawful) (h : referenceFragments schema declarations = .ok references)
    (hget : Keyed.get? references above = some reference) (hnode : IsNode declarations node)
    (happlies : schema.Applies above node) (hne : above ≠ node) :
    ∃ queries idFragment, Declares declarations node queries idFragment
      ∧ ∃ parts, reference.selections = mergeAll [] parts ∧ TypenamesPlain parts
        ∧ (idFragment.reference node).selections ⊆ parts := by
  obtain ⟨⟨o, ho, hobject⟩, -⟩ := exists_reference_of_isNode hschema h hnode
  obtain rfl := Schema.name_of_type? ho
  obtain ⟨i, hi, hsub⟩ := happlies.resolve_left hne
  obtain ⟨entries, hentries, h⟩ := bind_eq_ok.mp h
  cases h
  rcases Keyed.mem_of_get?_overlay hget with hget | hget
  · obtain ⟨name, -, hmade⟩ := List.mem_filterMap.mp hget
    obtain ⟨f, hf, heq⟩ := Option.map_eq_some_iff.mp hmade
    cases heq
    obtain ⟨i', hi', hf⟩ := Option.bind_eq_some_iff.mp hf
    obtain rfl := Option.some.inj (hi.symm.trans hi')
    obtain ⟨fragments, hfragments, hf⟩ := Option.bind_eq_some_iff.mp hf
    obtain ⟨g, hg, hdeclared⟩ := exists_of_mapM_eq_some hfragments o
      (hschema.mem_possibleTypes ho hobject hsub)
    obtain ⟨queries, idFragment, hdeclares, rfl, -⟩ := declares_of_get? hentries hdeclared
    dsimp only at hf
    split at hf
    · cases hf
      refine ⟨queries, idFragment, hdeclares, _, rfl, fun s hs => ?_, fun s hs => ?_⟩
      · obtain ⟨g, hg, hs⟩ := List.mem_flatMap.mp hs
        obtain ⟨p, -, hp⟩ := (length_and_mem_of_mapM hfragments).2 g hg
        obtain ⟨_, idFragment', -, rfl, -⟩ := declares_of_get? hentries hp
        exact typenamesPlain_reference idFragment' p.name s hs
      · exact List.mem_flatMap.mpr ⟨_, hg, hs⟩
    · cases hf
  · -- nothing lies under a node type
    obtain ⟨_, _, -, -, hisObject⟩ := declares_of_get? hentries hget
    have hsame := (Schema.applies_iff_of_isObject hisObject).mp (.inr ⟨i, hi, hsub⟩)
    exact absurd hsame hne

end RemoteNodes
