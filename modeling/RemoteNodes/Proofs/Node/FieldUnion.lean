import Mathlib.Tactic
import RemoteNodes.Proofs.Node.Merging
import RemoteNodes.Proofs.Selection.FieldTree
/-!
Merging fields as the union of trees of field names.

* `FieldAt.unique`: where names are distinct, at most one field is found along names.
* `DistinctNames.mergeAll`: **merging leaves each name once per level**.
* `Found`: a field is found along names, with selections if that is asked.
* `found_mergeAll`: **along names is found after merging what was found before**, in one of the
  selections that are merged.
* `hasPath_mergeAll`, `fieldAt_none_mergeAll`: **a field is there after merging if one was there
  before, and is a leaf if all of them were leaves**.
* `exists_mergeAll_eq_typename_cons`: a type name that comes first stays first.
-/

namespace RemoteNodes

variable {merged ss : List Selection} {s : Selection} {name name' : String} {path : List String}
  {selections? new? : Option (List Selection)} {opened : Bool}

/-! ### One level -/

/-- A field that is set keeps its place, and a new one comes last. -/
lemma fieldNames_putField (name : String) (selections? : Option (List Selection)) :
    fieldNames (putField name selections? merged)
      = if name ∈ fieldNames merged then fieldNames merged else fieldNames merged ++ [name] := by
  induction merged with
  | nil => rfl
  | cons x merged ih =>
      cases x with
      | field alias? other arguments directives selections?' =>
          rw [putField, fieldNames_cons_field]
          by_cases hother : other = name
          · rw [if_pos (beq_iff_eq.mpr hother), if_pos (by simp [hother]), Selection.plain,
              fieldNames_cons_field, hother]
          · rw [if_neg (by simpa using hother), fieldNames_cons_field, ih]
            by_cases hname : name ∈ fieldNames merged
            · simp [hname]
            · simp [hname, Ne.symm hother]
      | spread _ _ | inline _ _ _ => exact ih

lemma mem_fieldNames_putField :
    name ∈ fieldNames (putField name' selections? merged)
      ↔ name' = name ∨ name ∈ fieldNames merged := by
  rw [fieldNames_putField]
  split
  · rename_i hname'
    exact ⟨.inr, fun h => h.elim (fun heq => heq ▸ hname') id⟩
  · rw [List.mem_append, List.mem_singleton, or_comm, eq_comm]

lemma nodup_fieldNames_putField (h : (fieldNames merged).Nodup) :
    (fieldNames (putField name selections? merged)).Nodup := by
  rw [fieldNames_putField]
  split
  · exact h
  · rename_i hname
    rw [← List.concat_eq_append]
    exact h.concat hname

/-- Where names are distinct, the field of a name is the one that is looked up. -/
lemma fieldAt_singleton_iff (h : (fieldNames ss).Nodup) :
    FieldAt ss [name] selections? ↔ name ∈ fieldNames ss ∧ selectionsOf name ss = selections? := by
  rw [fieldAt_singleton]
  induction ss with
  | nil => simp
  | cons x ss ih =>
      cases x with
      | field alias? other arguments directives selections?' =>
          obtain ⟨hother, hrest⟩ := List.nodup_cons.mp h
          rw [fieldNames_cons_field, List.mem_cons, selectionsOf]
          by_cases hname : other = name
          · subst hname
            have hlater : ¬ ∃ alias? arguments directives,
                Selection.field alias? other arguments directives selections? ∈ ss := by
              rintro ⟨alias?, arguments, directives, hs⟩
              exact hother (mem_fieldNames.mpr ⟨alias?, arguments, directives, selections?, hs⟩)
            simp only [not_exists] at hlater
            simp [hlater, eq_comm]
          · simpa [hname, Ne.symm hname] using ih hrest
      | spread _ _ | inline _ _ _ =>
          rw [fieldNames_cons_of_none rfl] at h ⊢
          simpa [selectionsOf] using ih h

/-- Where names are distinct, at most one field is found along names. -/
theorem FieldAt.unique {selections?' : Option (List Selection)} (hnames : DistinctNames ss)
    (h : FieldAt ss path selections?) (h' : FieldAt ss path selections?') :
    selections? = selections?' := by
  have hsame {ss : List Selection} {name : String} {selections? selections?'}
      (hnames : DistinctNames ss) (h : FieldAt ss [name] selections?)
      (h' : FieldAt ss [name] selections?') : selections? = selections?' :=
    ((fieldAt_singleton_iff hnames.nodup).mp h).2.symm.trans
      ((fieldAt_singleton_iff hnames.nodup).mp h').2
  induction h with
  | here h => exact hsame hnames (.here h) h'
  | inside h hinner ih =>
      rcases fieldAt_cons.mp h' with ⟨rfl, -⟩ | ⟨selections', hfirst, h'⟩
      · cases hinner
      · obtain rfl := Option.some.inj (hsame hnames (.here h) hfirst)
        exact ih (hnames.inside h) h'

/-! ### Distinct names -/

lemma DistinctNames.of_selectionsOf (h : DistinctNames merged)
    (hss : selectionsOf name merged = some ss) : DistinctNames ss := by
  obtain ⟨_, _, _, hmem⟩ := mem_of_selectionsOf hss
  exact h.inside hmem

lemma DistinctNames.getD_selectionsOf (h : DistinctNames merged) (name : String) :
    DistinctNames ((selectionsOf name merged).getD []) := by
  cases hname : selectionsOf name merged with
  | none => exact .nil
  | some ss => exact h.of_selectionsOf hname

lemma DistinctNames.putField (h : DistinctNames merged)
    (hnew : ∀ ss, selections? = some ss → DistinctNames ss) :
    DistinctNames (putField name selections? merged) := by
  refine distinctNames_iff.mpr ⟨nodup_fieldNames_putField h.nodup, fun x hx => ?_⟩
  rcases mem_putField hx with rfl | hx
  · cases selections? with
    | none => exact fun set hset => by cases hset
    | some ss => exact hnew ss rfl
  · exact (distinctNames_iff.mp h).2 x hx

lemma DistinctNames.mergeInto (h : DistinctNames merged) (s : Selection) :
    DistinctNames (mergeInto merged s) := by
  induction s using Selection.induct generalizing merged with
  | leaf alias? name arguments directives =>
      exact h.putField fun ss hss => h.of_selectionsOf hss
  | composite alias? name arguments directives ss ih =>
      rw [RemoteNodes.mergeInto]
      refine h.putField fun within hwithin => Option.some.inj hwithin ▸ ?_
      exact mergeAll_induct (motive := DistinctNames) (h.getD_selectionsOf name)
        fun s hs merged hmerged => ih s hs hmerged
  | spread fragment directives | inline condition? directives ss => exact h

/-- Merging leaves each name once per level. -/
theorem DistinctNames.mergeAll (h : DistinctNames merged) (ss : List Selection) :
    DistinctNames (mergeAll merged ss) :=
  mergeAll_induct (motive := DistinctNames) h fun s _ _ hmerged => hmerged.mergeInto s

/-! ### What is found along names -/

/-- A field is found along names, and one with selections if that is asked. -/
def Found (opened : Bool) (ss : List Selection) (path : List String) : Prop :=
  ∃ selections?, FieldAt ss path selections? ∧ (opened = true → selections?.isSome = true)

/-- What is found along further names in the selections of a field. -/
def FoundAfter (opened : Bool) (selections? : Option (List Selection)) (path : List String) :
    Prop :=
  (path = [] ∧ (opened = true → selections?.isSome = true))
    ∨ ∃ selections, selections? = some selections ∧ Found opened selections path

lemma found_false : Found false ss path ↔ HasPath ss path := by simp [Found, HasPath]

lemma found_true : Found true ss path ↔ ∃ selections, FieldAt ss path (some selections) := by
  simp only [Found, forall_const, Option.isSome_iff_exists]
  constructor
  · rintro ⟨_, h, selections, rfl⟩
    exact ⟨selections, h⟩
  · rintro ⟨selections, h⟩
    exact ⟨_, h, selections, rfl⟩

lemma found_iff_exists_mem : Found opened ss path ↔ ∃ s ∈ ss, Found opened [s] path := by
  simp only [Found]
  constructor
  · rintro ⟨selections?, h, hopened⟩
    obtain ⟨s, hs, h⟩ := fieldAt_iff_exists_mem.mp h
    exact ⟨s, hs, selections?, h, hopened⟩
  · rintro ⟨s, hs, selections?, h, hopened⟩
    exact ⟨selections?, fieldAt_iff_exists_mem.mpr ⟨s, hs, h⟩, hopened⟩

lemma found_cons :
    Found opened (s :: ss) path ↔ Found opened [s] path ∨ Found opened ss path := by
  rw [found_iff_exists_mem, List.exists_mem_cons_iff, ← found_iff_exists_mem]

lemma found_name : Found opened ss (name :: path)
    ↔ ∃ selections?, FieldAt ss [name] selections? ∧ FoundAfter opened selections? path := by
  constructor
  · rintro ⟨selections?, h, hopened⟩
    rcases fieldAt_cons.mp h with ⟨rfl, h⟩ | ⟨selections, h, h'⟩
    · exact ⟨selections?, h, .inl ⟨rfl, hopened⟩⟩
    · exact ⟨some selections, h, .inr ⟨selections, rfl, selections?, h', hopened⟩⟩
  · rintro ⟨selections?, h, ⟨rfl, hopened⟩ | ⟨selections, rfl, selections?', h', hopened⟩⟩
    · exact ⟨selections?, h, hopened⟩
    · exact ⟨selections?', fieldAt_cons.mpr (.inr ⟨selections, h, h'⟩), hopened⟩

lemma not_found_nil : ¬ Found opened ss [] := by
  rintro ⟨_, h, -⟩
  cases h

lemma not_found_empty : ¬ Found opened [] path := by
  rw [found_iff_exists_mem]
  simp

lemma foundAfter_some :
    FoundAfter opened (some ss) path ↔ path = [] ∨ Found opened ss path := by simp [FoundAfter]

lemma FoundAfter.of_none (h : FoundAfter opened none path) (selections? : Option (List Selection)) :
    FoundAfter opened selections? path := by
  obtain ⟨hpath, hopened⟩ | ⟨_, h, -⟩ := h
  · exact .inl ⟨hpath, fun h => nomatch hopened h⟩
  · cases h

lemma found_field {alias? : Option String} {arguments : List Argument}
    {directives : List Directive} :
    Found opened [.field alias? name arguments directives selections?] (name' :: path)
      ↔ name = name' ∧ FoundAfter opened selections? path := by
  simp only [found_name, fieldAt_singleton, List.mem_singleton, Selection.field.injEq]
  constructor
  · rintro ⟨_, ⟨_, _, _, -, rfl, -, -, rfl⟩, hafter⟩
    exact ⟨rfl, hafter⟩
  · rintro ⟨rfl, hafter⟩
    exact ⟨_, ⟨_, _, _, rfl, rfl, rfl, rfl, rfl⟩, hafter⟩

lemma not_found_of_none (h : s.fieldName? = none) : ¬ Found opened [s] path := by
  rintro ⟨_, hfound, -⟩
  cases hfound with
  | here hs | inside hs => cases List.mem_singleton.mp hs ▸ h

/-- In a set with distinct names, what is found along a name is found in the field of that name. -/
lemma found_name_iff (h : DistinctNames merged) : Found opened merged (name :: path)
    ↔ name ∈ fieldNames merged ∧ FoundAfter opened (selectionsOf name merged) path := by
  simp only [found_name, fieldAt_singleton_iff h.nodup, and_assoc, exists_and_left,
    exists_eq_left']

/-- A field that is set finds what was found before and what is found in another field, if its
selections do so. -/
lemma found_putField {alias? : Option String} {arguments : List Argument}
    {directives : List Directive} (h : DistinctNames merged)
    (hwithin : ∀ ss, new? = some ss → DistinctNames ss)
    (hnew : ∀ path, FoundAfter opened new? path
      ↔ (name ∈ fieldNames merged ∧ FoundAfter opened (selectionsOf name merged) path)
        ∨ FoundAfter opened selections? path) :
    Found opened (putField name new? merged) path ↔ Found opened merged path
      ∨ Found opened [.field alias? name arguments directives selections?] path := by
  cases path with
  | nil => simp [not_found_nil]
  | cons first path =>
      rw [found_name_iff (h.putField hwithin), found_name_iff h, found_field,
        mem_fieldNames_putField, selectionsOf_putField]
      by_cases hname : name = first
      · subst hname
        simpa using hnew path
      · simp [hname]

lemma selectionsOf_eq_none (h : name ∉ fieldNames merged) : selectionsOf name merged = none := by
  cases hname : selectionsOf name merged with
  | none => rfl
  | some ss =>
      obtain ⟨_, _, _, hmem⟩ := mem_of_selectionsOf hname
      exact absurd (mem_fieldNames.mpr ⟨_, _, _, _, hmem⟩) h

/-! ### The union of trees -/

private lemma found_mergeAll_of_each (h : DistinctNames merged)
    (heach : ∀ s ∈ ss, ∀ merged, DistinctNames merged →
      (Found opened (mergeInto merged s) path ↔ Found opened merged path ∨ Found opened [s] path)) :
    Found opened (mergeAll merged ss) path ↔ Found opened merged path ∨ Found opened ss path := by
  induction ss generalizing merged with
  | nil => exact (or_iff_left not_found_empty).symm
  | cons s ss ih =>
      obtain ⟨hfirst, hrest⟩ := List.forall_mem_cons.mp heach
      rw [mergeAll, ih (h.mergeInto s) hrest, hfirst merged h, or_assoc, ← found_cons]

/-- Along names is found after merging a selection what was found before and what is found in it. -/
theorem found_mergeInto (h : DistinctNames merged) (s : Selection) :
    Found opened (mergeInto merged s) path ↔ Found opened merged path ∨ Found opened [s] path := by
  induction s using Selection.induct generalizing merged path with
  | leaf alias? name arguments directives =>
      refine found_putField h (fun ss hss => h.of_selectionsOf hss) fun path => ?_
      by_cases hname : name ∈ fieldNames merged
      · simpa [hname] using fun hnone : FoundAfter opened none path => hnone.of_none _
      · simp [hname, selectionsOf_eq_none hname]
  | composite alias? name arguments directives ss ih =>
      have hbefore := h.getD_selectionsOf name
      refine found_putField h (fun _ hwithin => Option.some.inj hwithin ▸ hbefore.mergeAll ss)
        fun path => ?_
      rw [foundAfter_some, foundAfter_some,
        found_mergeAll_of_each hbefore fun s hs merged hmerged => ih s hs hmerged]
      have hnil : Found opened [] path ↔ False := iff_of_false not_found_empty id
      cases hname : selectionsOf name merged with
      | none =>
          -- a leaf of the name, if there is one, asks for no more than is found now
          have hleaf : FoundAfter opened none path → path = [] := fun h =>
            h.elim And.left fun ⟨_, heq, _⟩ => nomatch heq
          simp only [Option.getD_none, hnil]
          tauto
      | some before =>
          obtain ⟨_, _, _, hmem⟩ := mem_of_selectionsOf hname
          have hmem : name ∈ fieldNames merged := mem_fieldNames.mpr ⟨_, _, _, _, hmem⟩
          rw [Option.getD_some, foundAfter_some]
          tauto
  | spread fragment directives | inline condition? directives ss =>
      exact (or_iff_left (not_found_of_none rfl)).symm

/-- **Along names is found after merging what was found before**, and what is found in one of the
selections that are merged. -/
theorem found_mergeAll (h : DistinctNames merged) (ss : List Selection) :
    Found opened (mergeAll merged ss) path ↔ Found opened merged path ∨ Found opened ss path :=
  found_mergeAll_of_each h fun s _ _ hmerged => found_mergeInto hmerged s

/-! ### One tree -/

/-- Some field is found along names after merging if one is in what is merged. -/
theorem hasPath_mergeAll : HasPath (mergeAll [] ss) path ↔ HasPath ss path := by
  rw [← found_false, found_mergeAll .nil, or_iff_right not_found_empty, found_false]

/-- **A field is a leaf after merging if some field is found in what is merged and each of those
that are is a leaf.** -/
theorem fieldAt_none_mergeAll : FieldAt (mergeAll [] ss) path none
    ↔ HasPath ss path ∧ ∀ selections?, FieldAt ss path selections? → selections? = none := by
  have hopens : Found true (mergeAll [] ss) path ↔ Found true ss path := by
    rw [found_mergeAll .nil, or_iff_right not_found_empty]
  rw [found_true, found_true] at hopens
  constructor
  · intro h
    refine ⟨hasPath_mergeAll.mp ⟨none, h⟩, fun selections? hfield => ?_⟩
    cases selections? with
    | none => rfl
    | some selections =>
        -- a field with selections would be found along the names after merging too
        obtain ⟨_, hopened⟩ := hopens.mpr ⟨selections, hfield⟩
        cases h.unique (DistinctNames.nil.mergeAll ss) hopened
  · rintro ⟨hpath, hleaf⟩
    obtain ⟨selections?, h⟩ := hasPath_mergeAll.mpr hpath
    cases selections? with
    | none => exact h
    | some selections =>
        obtain ⟨_, hfield⟩ := hopens.mp ⟨selections, h⟩
        cases hleaf _ hfield

/-! ### Type names -/

lemma exists_mergeAll_eq_typename_cons (hss : ∀ s ∈ ss, s.isTypename = true →
    s = .plain "__typename") : ∃ rest,
    mergeAll [] (.plain "__typename" :: ss) = .plain "__typename" :: rest := by
  rw [mergeAll]
  refine mergeAll_induct (motive := fun merged => ∃ rest, merged = .plain "__typename" :: rest)
    ⟨[], rfl⟩ ?_
  rintro s hs _ ⟨rest, rfl⟩
  cases s with
  | field alias? name arguments directives selections? =>
      by_cases hname : name = "__typename"
      · cases hss _ hs (beq_iff_eq.mpr hname)
        exact ⟨rest, rfl⟩
      · have hput (new? : Option (List Selection)) :
            putField name new? (.plain "__typename" :: rest)
              = .plain "__typename" :: putField name new? rest := by
          rw [Selection.plain, putField, if_neg (by simpa using Ne.symm hname)]
        cases selections? <;> exact ⟨_, hput _⟩
  | spread _ _ | inline _ _ _ => exact ⟨rest, rfl⟩

end RemoteNodes
