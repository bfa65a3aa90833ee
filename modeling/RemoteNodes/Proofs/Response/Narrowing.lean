import Mathlib.Tactic
import RemoteNodes.Proofs.Node.Recorded
import RemoteNodes.Proofs.Selection.Narrowed
/-!
What selections ask for on objects of one type, and what is left of it once undefined fields are
taken out and repetitions are left out.

* `Execution.GathersOn`: a field that selections ask for, with the type that it is selected on.
* `Execution.GathersOn.gathers_narrowAll`: **what narrowing leaves of the field is asked for by what
  it leaves of the selections**.
* `Execution.Gathers.of_selectionsInclude`: **what an included set asks for is asked for**.
* `Execution.Gathers.exists_recorded`: **what collected selections ask for, what is recorded of them
  asks for**.
* `Execution.Gathers.shallow_leaf`: shallow selections ask for the same fields without selections.
-/

namespace RemoteNodes

namespace Execution

/-- A field that selections on a type ask for on objects of a type, as one of them or in inline
fragments that apply, with the type that it is selected on. -/
inductive GathersOn (x : Execution) (schema : Schema) (object : String) :
    NamedType → List Selection → NamedType → Selection → Prop
  | field {t : NamedType} {ss : List Selection} {alias? : Option String} {name : String}
      {arguments : List Argument} {directives : List Directive}
      {selections? : Option (List Selection)}
      (hs : .field alias? name arguments directives selections? ∈ ss)
      (hadmits : x.Admits directives) :
      GathersOn x schema object t ss t (.field alias? name arguments directives selections?)
  | inline {t u : NamedType} {ss inner : List Selection} {s : Selection}
      {condition? : Option String} {directives : List Directive}
      (hs : .inline condition? directives inner ∈ ss) (hadmits : x.Admits directives)
      (happlies : ∀ condition, condition? = some condition → schema.Applies condition object)
      (h : GathersOn x schema object (schema.conditionType t condition?) inner u s) :
      GathersOn x schema object t ss u s

variable {x : Execution} {schema : Schema} {object : String} {t u : NamedType}
  {s s' : Selection} {ss ss' : List Selection}

lemma Gathers.ne_nil {document : Document} (h : x.Gathers schema document object ss s) :
    ss ≠ [] := by
  rintro rfl
  exact gathers_nil h

namespace GathersOn

lemma mono (h : x.GathersOn schema object t ss u s) (hsub : ss ⊆ ss') :
    x.GathersOn schema object t ss' u s := by
  cases h with
  | field hs hadmits => exact .field (hsub hs) hadmits
  | inline hs hadmits happlies h => exact .inline (hsub hs) hadmits happlies h

lemma gathers {document : Document} (h : x.GathersOn schema object t ss u s) :
    x.Gathers schema document object ss s := by
  induction h with
  | field hs hadmits => exact .field hs hadmits
  | inline hs hadmits happlies _ ih => exact .inline hs hadmits happlies ih

lemma ne_nil (h : x.GathersOn schema object t ss u s) : ss ≠ [] := by
  have hgathers : x.Gathers schema [] object ss s := h.gathers
  exact hgathers.ne_nil

/-- **What narrowing leaves of a field** is asked for by what it leaves of the selections. -/
theorem narrowAll (h : x.GathersOn schema object t ss u s) (haccepts : u.accepts s = true)
    (hs' : s.narrow? schema u = some s') :
    x.GathersOn schema object t (narrowAll schema t ss) u s' := by
  induction h with
  | field hs hadmits =>
      have hmem := mem_narrowAll.mpr ⟨_, hs, haccepts, hs'⟩
      obtain ⟨_, rfl⟩ := Selection.exists_of_narrow?_field hs'
      exact .field hmem hadmits
  | inline hs hadmits happlies _ ih =>
      have hinner := ih haccepts hs'
      exact .inline (Selection.inline_mem_narrowAll hs hinner.ne_nil) hadmits happlies hinner

end GathersOn

/-! ### Included sets -/

/-- **What an included set asks for** is asked for by the set that includes it. -/
theorem Gathers.of_selectionsInclude (h : x.Gathers schema [] object ss s)
    (hinclude : selectionsInclude ss' ss = true) :
    ∃ s', x.Gathers schema [] object ss' s' ∧ s'.includes s = true := by
  induction h generalizing ss' with
  | @field ss alias? name arguments directives selections? hs hadmits =>
      obtain ⟨s', hs', hincludes⟩ := exists_includes_of_mem hinclude hs
      cases selections? with
      | none =>
          obtain ⟨arguments', directives', rfl, -, hdirectives⟩ :=
            Selection.exists_of_includes_leaf hincludes
          exact ⟨_, .field hs' (x.admits_congr hdirectives hadmits), hincludes⟩
      | some inner =>
          obtain ⟨arguments', directives', inner', rfl, -, hdirectives, -⟩ :=
            Selection.exists_of_includes_composite hincludes
          exact ⟨_, .field hs' (x.admits_congr hdirectives hadmits), hincludes⟩
  | inline hs hadmits happlies _ ih =>
      obtain ⟨s', hs', hincludes⟩ := exists_includes_of_mem hinclude hs
      obtain ⟨directives', inner', rfl, hdirectives, hinner⟩ :=
        Selection.exists_of_includes_inline hincludes
      obtain ⟨s'', h, hincludes⟩ := ih hinner
      exact ⟨s'', .inline hs' (x.admits_congr hdirectives hadmits) happlies h, hincludes⟩
  | spread _ _ hf _ _ _ => cases hf

/-- What a selection asks for that is included in another one is asked for by the other one. -/
lemma Gathers.of_includes {a b : Selection} (h : x.Gathers schema [] object [b] s)
    (hincludes : a.includes b = true) :
    ∃ s', x.Gathers schema [] object [a] s' ∧ s'.includes s = true := by
  refine h.of_selectionsInclude (selectionsInclude_iff.mpr fun b' hb' => ?_)
  rw [List.mem_singleton.mp hb']
  exact ⟨a, List.mem_singleton_self _, hincludes⟩

/-- **What collected selections ask for**, what is recorded of them asks for. -/
theorem Gathers.exists_recorded {references : References} {customs : List Fragment} {f : Fragment}
    {start site : UsageWalk.Site} (hf : f ∈ customs)
    (hbegins : (usageWalk schema references customs).Begins f start)
    (hchain : Relation.ReflTransGen (usageWalk schema references customs).Leads start site)
    (h : x.Gathers schema [] object (narrowAll schema site.type site.selections) s) :
    ∃ recorded ∈ (Usages.ofEvents (usageEvents schema references customs)).selectionsAt
        site.type.name site.path,
      ∃ s', x.Gathers schema [] object [recorded] s' ∧ s'.includes s = true := by
  obtain ⟨left, hleft, h⟩ := (gathers_iff_exists _).mp h
  obtain ⟨recorded, hrecorded, hsame⟩ := exists_same_of_leads hf hbegins hchain hleft
  rw [Selection.same, Bool.and_eq_true] at hsame
  exact ⟨recorded, hrecorded, h.of_includes hsame.1⟩

/-! ### Shallow selections -/

/-- Fields without selections are asked for as before once selections are shallow. -/
lemma Gathers.shallow_leaf {references : References} {customs : List Fragment}
    {alias? : Option String} {name : String} {arguments : List Argument}
    {directives : List Directive}
    (h : x.Gathers schema [] object ss (.field alias? name arguments directives none))
    (parent? : Option NamedType) :
    x.Gathers schema [] object
      (rewriteAll schema (shallowing schema references customs).rewriting parent? ss)
      (.field alias? name arguments directives none) := by
  generalize hs : Selection.field alias? name arguments directives none = s at h
  induction h generalizing parent? with
  | field hmem hadmits =>
      cases hs
      refine .field ?_ hadmits
      rw [rewriteAll_eq_map]
      exact List.mem_map.mpr ⟨_, hmem, rfl⟩
  | inline hmem hadmits happlies _ ih =>
      have hmem := List.mem_map_of_mem hmem
        (f := (·.rewrite schema (shallowing schema references customs).rewriting parent?))
      rw [← rewriteAll_eq_map, Selection.rewrite] at hmem
      exact .inline hmem hadmits happlies (ih _ hs)
  | spread _ _ hf _ _ _ => cases hf

end Execution

end RemoteNodes
