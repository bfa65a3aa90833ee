import Mathlib.Tactic
import RemoteNodes.Proofs.Node.Fragments
import RemoteNodes.Proofs.Selection.Inclusion
/-!
Narrowed selections against each other: what narrowing leaves stays if it is narrowed again, and is
included in what it was before.

* `Selection.narrow?_composite`, `Selection.narrow?_inline`: when something is left of a selection.
* `Schema.Leaves`: a selection of which nothing is taken away; `Selection.narrow?_of_narrow?`,
  `narrowAll_narrowAll`: **narrowing twice is narrowing once**.
* `Selection.includes_of_narrow?`: **narrowing takes away only**.
-/

namespace RemoteNodes

variable {schema : Schema} {t : NamedType} {s s' : Selection} {ss : List Selection}

/-! ### Narrowing twice -/

namespace Selection

variable {alias? condition? : Option String} {name : String} {arguments : List Argument}
  {directives : List Directive}

/-- Of a field with selections something is left exactly if something is left inside it. -/
lemma narrow?_composite (hname : isMetaName name = false) :
    (field alias? name arguments directives (some ss)).narrow? schema t = some s'
      ↔ narrowAll schema (schema.memberResult t name) ss ≠ []
        ∧ s' = field alias? name arguments directives
          (some (narrowAll schema (schema.memberResult t name) ss)) := by
  rw [narrow?, if_neg (by simp [hname])]
  split
  · rename_i hnone
    refine iff_of_false (fun h => ?_) fun h => h.1 hnone
    cases h
  · rename_i hne
    exact ⟨fun h => ⟨hne, (Option.some.inj h).symm⟩, fun h => congrArg some h.2.symm⟩

/-- Nothing is taken away from a field of introspection. -/
lemma narrow?_meta (hname : isMetaName name = true) :
    (field alias? name arguments directives (some ss)).narrow? schema t
      = some (field alias? name arguments directives (some ss)) := by
  rw [narrow?, if_pos hname]

/-- Of an inline fragment something is left exactly if something is left inside it. -/
lemma narrow?_inline : (inline condition? directives ss).narrow? schema t = some s'
    ↔ narrowAll schema (schema.conditionType t condition?) ss ≠ []
      ∧ s' = inline condition? directives
        (narrowAll schema (schema.conditionType t condition?) ss) := by
  rw [narrow?]
  split
  · rename_i hnone
    refine iff_of_false (fun h => ?_) fun h => h.1 hnone
    cases h
  · rename_i hne
    exact ⟨fun h => ⟨hne, (Option.some.inj h).symm⟩, fun h => congrArg some h.2.symm⟩

/-- A field that a type defines is left with what is left inside it. -/
lemma composite_mem_narrowAll (hname : isMetaName name = false) {inner : List Selection}
    (hs : field alias? name arguments directives (some inner) ∈ ss)
    (hdefines : t.defines name = true)
    (hne : narrowAll schema (schema.memberResult t name) inner ≠ []) :
    field alias? name arguments directives
        (some (narrowAll schema (schema.memberResult t name) inner)) ∈ narrowAll schema t ss :=
  mem_narrowAll.mpr ⟨_, hs, hdefines, (narrow?_composite hname).mpr ⟨hne, rfl⟩⟩

/-- An inline fragment is left with what is left inside it. -/
lemma inline_mem_narrowAll {inner : List Selection} (hs : inline condition? directives inner ∈ ss)
    (hne : narrowAll schema (schema.conditionType t condition?) inner ≠ []) :
    inline condition? directives (narrowAll schema (schema.conditionType t condition?) inner)
      ∈ narrowAll schema t ss :=
  mem_narrowAll.mpr ⟨_, hs, rfl, narrow?_inline.mpr ⟨hne, rfl⟩⟩

/-- What is left of a field is the field with other selections. -/
lemma exists_of_narrow?_field {selections? : Option (List Selection)}
    (h : (field alias? name arguments directives selections?).narrow? schema t = some s') :
    ∃ selections?', s' = field alias? name arguments directives selections?' := by
  cases selections? with
  | none =>
      cases h
      exact ⟨none, rfl⟩
  | some ss =>
      cases hname : isMetaName name with
      | true =>
          cases (narrow?_meta hname).symm.trans h
          exact ⟨some ss, rfl⟩
      | false =>
          obtain ⟨-, rfl⟩ := (narrow?_composite hname).mp h
          exact ⟨_, rfl⟩

/-- A type accepts what is left of a selection exactly if it accepts the selection. -/
lemma accepts_of_narrow? (h : s.narrow? schema t = some s') (u : NamedType) :
    u.accepts s' = u.accepts s := by
  cases s with
  | field alias? name arguments directives selections? =>
      obtain ⟨_, rfl⟩ := exists_of_narrow?_field h
      rfl
  | spread fragment directives =>
      cases h
      rfl
  | inline condition? directives ss =>
      obtain ⟨-, rfl⟩ := narrow?_inline.mp h
      rfl

end Selection

/-- A selection of which narrowing for a type takes nothing away. -/
def Schema.Leaves (schema : Schema) (t : NamedType) (s : Selection) : Prop :=
  t.accepts s = true ∧ s.narrow? schema t = some s

lemma Schema.Leaves.mem_narrowAll (h : schema.Leaves t s) (hs : s ∈ ss) :
    s ∈ narrowAll schema t ss :=
  RemoteNodes.mem_narrowAll.mpr ⟨s, hs, h⟩

/-- Selections of which nothing is taken away are all left. -/
lemma narrowAll_eq_self (h : ∀ s ∈ ss, schema.Leaves t s) : narrowAll schema t ss = ss := by
  induction ss with
  | nil => rfl
  | cons s ss ih =>
      obtain ⟨⟨haccepts, hnarrow⟩, hrest⟩ := List.forall_mem_cons.mp h
      rw [narrowAll, if_pos haccepts, hnarrow, ih hrest]
      rfl

/-- What is left of a selection is all left if it is narrowed again. -/
lemma Selection.narrow?_of_narrow? (h : s.narrow? schema t = some s') :
    s'.narrow? schema t = some s' := by
  have hset {u : NamedType} {ss : List Selection}
      (ih : ∀ s ∈ ss, ∀ u s', s.narrow? schema u = some s' → s'.narrow? schema u = some s') :
      narrowAll schema u (narrowAll schema u ss) = narrowAll schema u ss := by
    refine narrowAll_eq_self fun s' hs' => ?_
    obtain ⟨s, hs, haccepts, hnarrow⟩ := mem_narrowAll.mp hs'
    exact ⟨(accepts_of_narrow? hnarrow u).trans haccepts, ih s hs u s' hnarrow⟩
  induction s using Selection.induct generalizing t s' with
  | leaf alias? name arguments directives =>
      cases h
      rfl
  | composite alias? name arguments directives ss ih =>
      cases hname : isMetaName name with
      | true =>
          cases (narrow?_meta hname).symm.trans h
          exact narrow?_meta hname
      | false =>
          obtain ⟨hne, rfl⟩ := (narrow?_composite hname).mp h
          rw [narrow?_composite hname, hset fun s hs u s' => @ih s hs u s']
          exact ⟨hne, rfl⟩
  | spread fragment directives =>
      cases h
      rfl
  | inline condition? directives ss ih =>
      obtain ⟨hne, rfl⟩ := narrow?_inline.mp h
      rw [narrow?_inline, hset fun s hs u s' => @ih s hs u s']
      exact ⟨hne, rfl⟩

/-- Of what narrowing leaves it takes nothing away. -/
lemma leaves_of_mem_narrowAll (h : s ∈ narrowAll schema t ss) : schema.Leaves t s := by
  obtain ⟨s', -, haccepts, hnarrow⟩ := mem_narrowAll.mp h
  exact ⟨(Selection.accepts_of_narrow? hnarrow t).trans haccepts,
    Selection.narrow?_of_narrow? hnarrow⟩

/-- **Narrowing twice is narrowing once.** -/
theorem narrowAll_narrowAll (ss : List Selection) :
    narrowAll schema t (narrowAll schema t ss) = narrowAll schema t ss :=
  narrowAll_eq_self fun _ h => leaves_of_mem_narrowAll h

/-! ### What narrowing takes away -/

/-- **Narrowing takes away only**: what is left of a selection is included in it. -/
theorem Selection.includes_of_narrow? (h : s.narrow? schema t = some s') :
    s.includes s' = true := by
  have hset {u : NamedType} {ss : List Selection}
      (ih : ∀ s ∈ ss, ∀ u s', s.narrow? schema u = some s' → s.includes s' = true) :
      selectionsInclude ss (narrowAll schema u ss) = true := by
    refine selectionsInclude_iff.mpr fun s' hs' => ?_
    obtain ⟨s, hs, -, hnarrow⟩ := mem_narrowAll.mp hs'
    exact ⟨s, hs, ih s hs u s' hnarrow⟩
  induction s using Selection.induct generalizing t s' with
  | leaf alias? name arguments directives =>
      cases h
      exact includes_self _
  | composite alias? name arguments directives ss ih =>
      cases hname : isMetaName name with
      | true =>
          cases (narrow?_meta hname).symm.trans h
          exact includes_self _
      | false =>
          obtain ⟨-, rfl⟩ := (narrow?_composite hname).mp h
          exact includes_composite_iff.mpr
            ⟨sameTexts_self _, sameTexts_self _, hset fun s hs u s' => @ih s hs u s'⟩
  | spread fragment directives =>
      cases h
      exact includes_self _
  | inline condition? directives ss ih =>
      obtain ⟨-, rfl⟩ := narrow?_inline.mp h
      exact includes_inline_iff.mpr ⟨sameTexts_self _, hset fun s hs u s' => @ih s hs u s'⟩

end RemoteNodes
