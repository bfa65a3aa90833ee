import Mathlib.Tactic
import RemoteNodes.Document.FieldPath
import RemoteNodes.Proofs.Document.Compilation
import RemoteNodes.Proofs.Document.Spreads
/-!
The variables that operations use and those that they declare.

* `mem_keys_typedUses`: a variable is recorded with a type exactly if it is used at a place of known
  type.
* `Document.mem_declared_of_mem_operationUses`: what an operation uses at such a place, itself or in
  fragments within its reach, is declared.
* `Compilation.operationUses_subset`: leaving fragments out adds no use;
  `Compilation.mem_declared`: **so compiled operations declare what they use at places of known
  type**.
-/

namespace RemoteNodes

variable {schema : Schema} {document : Document}

/-! ### Uses -/

lemma usesIn_eq_flatMap (parent? : Option NamedType) (inputs : List InputField)
    (ss : List Selection) :
    usesIn schema parent? inputs ss = ss.flatMap (·.uses schema parent? inputs) := by
  induction ss with
  | nil => rfl
  | cons s ss ih => rw [usesIn, ih, List.flatMap_cons]

/-- A selection uses what is used in it. -/
lemma uses_subset_usesIn {parent? : Option NamedType} {inputs : List InputField} {s : Selection}
    {ss : List Selection} (h : s ∈ ss) :
    s.uses schema parent? inputs ⊆ usesIn schema parent? inputs ss := by
  rw [usesIn_eq_flatMap]
  exact fun use huse => List.mem_flatMap.mpr ⟨s, h, huse⟩

/-- Without some spreads nothing new is used. -/
lemma usesIn_dropSpreadsIn_subset_of {names : List String} {ss : List Selection}
    (h : ∀ s ∈ ss, ∀ s', s.dropSpreads? names = some s' → ∀ parent? inputs,
      s'.uses schema parent? inputs ⊆ s.uses schema parent? inputs)
    (parent? : Option NamedType) (inputs : List InputField) :
    usesIn schema parent? inputs (dropSpreadsIn names ss) ⊆ usesIn schema parent? inputs ss := by
  intro use huse
  rw [usesIn_eq_flatMap, dropSpreadsIn_eq_filterMap] at huse
  obtain ⟨s', hs', huse⟩ := List.mem_flatMap.mp huse
  obtain ⟨s, hs, hdrop⟩ := List.mem_filterMap.mp hs'
  exact uses_subset_usesIn hs (h s hs s' hdrop parent? inputs huse)

lemma Selection.uses_subset_of_dropSpreads? {names : List String} {s s' : Selection}
    (h : s.dropSpreads? names = some s') (parent? : Option NamedType) (inputs : List InputField) :
    s'.uses schema parent? inputs ⊆ s.uses schema parent? inputs := by
  induction s using Selection.induct generalizing s' parent? inputs with
  | leaf alias? name arguments directives =>
      cases h
      exact List.Subset.refl _
  | composite alias? name arguments directives ss ih =>
      cases h
      rw [uses, uses]
      refine List.append_subset.mpr ⟨List.subset_append_left _ _, ?_⟩
      exact List.subset_append_of_subset_right _
        (usesIn_dropSpreadsIn_subset_of (fun s hs _ h => ih s hs h) _ _)
  | spread fragment directives =>
      rw [dropSpreads?] at h
      split at h
      · cases h
      · cases h
        exact List.Subset.refl _
  | inline condition? directives ss ih =>
      cases h
      rw [uses, uses]
      refine List.append_subset.mpr ⟨List.subset_append_left _ _, ?_⟩
      exact List.subset_append_of_subset_right _
        (usesIn_dropSpreadsIn_subset_of (fun s hs _ h => ih s hs h) _ _)

lemma usesIn_dropSpreadsIn_subset (names : List String) (ss : List Selection)
    (parent? : Option NamedType) (inputs : List InputField) :
    usesIn schema parent? inputs (dropSpreadsIn names ss) ⊆ usesIn schema parent? inputs ss :=
  usesIn_dropSpreadsIn_subset_of (fun _ _ _ h => Selection.uses_subset_of_dropSpreads? h) _ _

/-! ### Variables with types -/

/-- One more use. -/
private def record (m : Keyed TypeRef) (use : VariableUse) : Keyed TypeRef :=
  match use.type? with
  | some type => if Keyed.has m use.name then m else Keyed.put m use.name type
  | none => m

private lemma mem_keys_record {m : Keyed TypeRef} {use : VariableUse} {name : String} :
    name ∈ Keyed.keys (record m use)
      ↔ name ∈ Keyed.keys m ∨ (use.name = name ∧ use.type?.isSome = true) := by
  obtain ⟨used, type?⟩ := use
  cases type? with
  | none => simp [record]
  | some type =>
      have hkeys : name ∈ Keyed.keys (if Keyed.has m used then m else Keyed.put m used type)
          ↔ name ∈ Keyed.keys m ∨ used = name := by
        by_cases hused : Keyed.has m used = true
        · rw [if_pos hused]
          refine ⟨.inl, fun h => h.elim id ?_⟩
          rintro rfl
          exact Keyed.has_iff.mp hused
        · have hnone : used ∉ Keyed.keys m := fun hmem => hused (Keyed.has_iff.mpr hmem)
          rw [if_neg hused, Keyed.keys_put, if_neg hnone, List.mem_append, List.mem_singleton]
          exact or_congr_right eq_comm
      simpa [record] using hkeys

/-- A variable is recorded with a type exactly if it is used at a place of known type. -/
theorem mem_keys_typedUses {uses : List VariableUse} {name : String} :
    name ∈ Keyed.keys (typedUses uses) ↔ ∃ type, ⟨name, some type⟩ ∈ uses := by
  have hfold (m : Keyed TypeRef) : name ∈ Keyed.keys (uses.foldl record m)
      ↔ name ∈ Keyed.keys m ∨ ∃ type, (⟨name, some type⟩ : VariableUse) ∈ uses := by
    induction uses generalizing m with
    | nil => simp
    | cons use uses ih =>
        obtain ⟨used, type?⟩ := use
        rw [List.foldl_cons, ih, mem_keys_record, or_assoc]
        simp only [List.mem_cons, exists_or]
        refine or_congr_right (or_congr_left ⟨?_, ?_⟩)
        · rintro ⟨rfl, htype⟩
          obtain ⟨type, rfl⟩ := Option.isSome_iff_exists.mp htype
          exact ⟨type, rfl⟩
        · rintro ⟨type, htype⟩
          cases htype
          exact ⟨rfl, rfl⟩
  exact (hfold []).trans (or_iff_right List.not_mem_nil)

namespace Document

variable {o : Operation}

/-- An operation with all used variables declared. -/
def declaring (document : Document) (schema : Schema) (o : Operation) : Operation :=
  { o with variableDefinitions := o.variableDefinitions ++ document.missingVariables schema o }

lemma withVariables_eq :
    document.withVariables schema = document.mapParts (document.declaring schema) id := rfl

/-- With what it lacks, an operation declares what it uses at places of known type. -/
lemma mem_declared_of_mem_uses {use : VariableUse} {t : TypeRef}
    (h : use ∈ document.operationUses schema o) (htype : use.type? = some t) :
    use.name ∈ (document.declaring schema o).variableDefinitions.map (·.name) := by
  obtain ⟨name, type?⟩ := use
  obtain rfl : type? = some t := htype
  obtain ⟨⟨other, first⟩, hfirst, hother⟩ := List.mem_map.mp (mem_keys_typedUses.mpr ⟨t, h⟩)
  obtain rfl : other = name := hother
  rw [declaring, List.map_append, List.mem_append]
  by_cases hdeclared : o.variableDefinitions.any (·.name == other) = true
  · obtain ⟨v, hv, hname⟩ := List.any_eq_true.mp hdeclared
    exact .inl (List.mem_map.mpr ⟨v, hv, eq_of_beq hname⟩)
  · refine .inr (List.mem_map.mpr ⟨{ name := other, type := first }, ?_, rfl⟩)
    exact List.mem_filterMap.mpr ⟨_, hfirst, if_neg hdeclared⟩

/-! ### Documents with the same fragments -/

section Fragments

variable {other : Document} (hfragments : other.fragments = document.fragments)
include hfragments

lemma spreadsOf_congr : other.spreadsOf = document.spreadsOf := by
  funext name
  rw [spreadsOf, spreadsOf, hfragments]

lemma reachable_congr (names : List String) : other.reachable names = document.reachable names := by
  rw [reachable, reachable, spreadsOf_congr hfragments, spreadCount, spreadCount, hfragments]

lemma fragmentUses_congr : other.fragmentUses schema = document.fragmentUses schema := by
  funext name
  rw [fragmentUses, fragmentUses, hfragments]

end Fragments

/-- Changes that leave names alone leave it open which operation counts for a name. -/
lemma lastOperation_map {g : Operation → Operation} (hg : ∀ o, (g o).name? = o.name?)
    {other : Document} (hoperations : other.operations = document.operations.map g)
    (o : Operation) : other.lastOperation (g o) = g (document.lastOperation o) := by
  have hcomp : (fun other : Operation => other.name? == (g o).name?) ∘ g
      = fun other => other.name? == o.name? := by
    funext other
    simp [hg]
  rw [lastOperation, lastOperation, hoperations, ← List.map_reverse, List.find?_map, hcomp,
    Option.getD_map]

/-- Declaring variables adds no uses. -/
lemma operationUses_withVariables (o : Operation) :
    (document.withVariables schema).operationUses schema (document.declaring schema o)
      = document.operationUses schema o := by
  have hfragments : (document.withVariables schema).fragments = document.fragments := by
    rw [withVariables_eq, fragments_mapParts, List.map_id]
  have hoperations : (document.withVariables schema).operations
      = document.operations.map (document.declaring schema) := operations_mapParts _ _ document
  have hlast := lastOperation_map (g := document.declaring schema) (fun _ => rfl) hoperations o
  rw [operationUses, operationUses, hlast, reachable_congr hfragments,
    fragmentUses_congr hfragments]
  rfl

/-- What an operation uses at places of known type, itself or in fragments within its reach, is
declared. -/
theorem mem_declared_of_mem_operationUses {use : VariableUse} {t : TypeRef}
    (ho : o ∈ (document.withVariables schema).operations)
    (h : use ∈ (document.withVariables schema).operationUses schema o)
    (htype : use.type? = some t) : use.name ∈ o.variableDefinitions.map (·.name) := by
  rw [withVariables_eq, operations_mapParts] at ho
  obtain ⟨o, -, rfl⟩ := List.mem_map.mp ho
  rw [operationUses_withVariables] at h
  exact mem_declared_of_mem_uses h htype

end Document

/-- Declaring variables is the last stage before fragments are left out. -/
lemma Stages.exists_assembled {declarations : List NodeDeclaration} {aliases : Aliases}
    {type : String} (c : Stages schema declarations aliases type) :
    ∃ before : Document, c.assembled = before.withVariables schema := by
  simp only [assembled, assemble]
  exact ⟨_, rfl⟩

namespace Compilation

variable {declarations : List NodeDeclaration} {sources : List String} {aliases : Aliases}
  {type : String} (c : Compilation schema declarations sources aliases type document)

/-- The last fragment of a name in a document is the last one of that name before fragments were
left out, without spreads of those. -/
lemma exists_last_fragment {name : String} {f' : Fragment}
    (h : document.fragments.reverse.find? (·.name == name) = some f') :
    ∃ f, c.assembled.fragments.reverse.find? (·.name == name) = some f ∧ c.cleaned f = f' := by
  have hcomp : (fun f : Fragment => f.name == name) ∘ c.cleaned = fun f => f.name == name := rfl
  rw [c.fragments_eq, ← List.map_reverse, List.find?_map, ← List.filter_reverse, hcomp] at h
  obtain ⟨f, hf, rfl⟩ := Option.map_eq_some_iff.mp h
  refine ⟨f, ?_, rfl⟩
  -- fragments stay by their names, so all of this name have stayed
  have hname : f.name = name := by simpa using List.find?_some hf
  have hstays := c.stays_iff.mp (List.mem_filter.mp (List.mem_of_find?_eq_some hf)).2
  have hall (g : Fragment) : (decide (c.stays g = true ∧ (g.name == name) = true))
      = (g.name == name) := by
    by_cases hg : g.name = name
    · have hstays' : c.stays g = true := c.stays_iff.mpr (by rwa [hg, ← hname])
      simp [hg, hstays']
    · simp [hg]
  rw [List.find?_filter] at hf
  simpa only [hall] using hf

/-- Leaving fragments out adds no spread. -/
lemma spreadsOf_subset {name : String} : document.spreadsOf name ⊆ c.assembled.spreadsOf name := by
  intro n hn
  rw [Document.spreadsOf] at hn
  split at hn
  · rename_i f' hf'
    obtain ⟨f, hf, rfl⟩ := c.exists_last_fragment hf'
    rw [cleaned, spreadNamesIn_dropSpreadsIn] at hn
    rw [Document.spreadsOf, hf]
    exact (List.mem_filter.mp hn).1
  · cases hn

lemma fragmentUses_subset {name : String} :
    document.fragmentUses schema name ⊆ c.assembled.fragmentUses schema name := by
  intro use huse
  rw [Document.fragmentUses] at huse
  split at huse
  · rename_i f' hf'
    obtain ⟨f, hf, rfl⟩ := c.exists_last_fragment hf'
    rw [Document.fragmentUses, hf]
    exact List.append_subset.mpr ⟨List.subset_append_left _ _,
      List.subset_append_of_subset_right _ (usesIn_dropSpreadsIn_subset _ _ _ _)⟩ huse
  · cases huse

/-- Leaving fragments out adds no use. -/
theorem operationUses_subset (o : Operation) :
    document.operationUses schema
        { o with selections := dropSpreadsIn c.duplicates o.selections }
      ⊆ c.assembled.operationUses schema o := by
  have hlast := Document.lastOperation_map (g := fun o : Operation =>
    { o with selections := dropSpreadsIn c.duplicates o.selections }) (fun _ => rfl)
    c.operations_eq o
  rw [Document.operationUses, hlast, Document.operationUses]
  refine List.append_subset.mpr ⟨?_, ?_⟩
  · refine List.subset_append_of_subset_left _ ?_
    exact List.append_subset.mpr ⟨List.subset_append_left _ _,
      List.subset_append_of_subset_right _ (usesIn_dropSpreadsIn_subset _ _ _ _)⟩
  · refine List.subset_append_of_subset_right _ fun use huse => ?_
    obtain ⟨name, hname, huse⟩ := List.mem_flatMap.mp huse
    refine List.mem_flatMap.mpr ⟨name, ?_, c.fragmentUses_subset huse⟩
    obtain ⟨first, hfirst, hchain⟩ := Document.mem_reachable_iff.mp hname
    rw [spreadNamesIn_dropSpreadsIn] at hfirst
    exact Document.mem_reachable_iff.mpr ⟨first, (List.mem_filter.mp hfirst).1,
      hchain.lift id fun _ _ h => c.spreadsOf_subset h⟩

include c in
/-- **A compiled operation declares what it uses at places of known type**, itself or in fragments
within its reach. -/
theorem mem_declared {o : Operation} {use : VariableUse} {t : TypeRef}
    (ho : o ∈ document.operations) (h : use ∈ document.operationUses schema o)
    (htype : use.type? = some t) : use.name ∈ o.variableDefinitions.map (·.name) := by
  rw [c.operations_eq] at ho
  obtain ⟨o, hassembled, rfl⟩ := List.mem_map.mp ho
  have huse := c.operationUses_subset o h
  obtain ⟨before, hbefore⟩ := c.exists_assembled
  rw [hbefore] at hassembled huse
  have hdeclared := Document.mem_declared_of_mem_operationUses hassembled huse htype
  exact hdeclared

end Compilation

end RemoteNodes
