import Mathlib.Tactic
import RemoteNodes.Proofs.Node.Nested
import RemoteNodes.Proofs.Selection.Narrowing
import RemoteNodes.Proofs.Selection.Sets
/-!
What applies to a possible type of an abstract type is found in two ways. The walk over custom
fragments empties the inline fragments that apply to it, level by level, and leaves out fields that
the types on the way do not define. The rewriting that makes fragments shallow keeps all fields, and
keeps inline fragments on types above the possible type as they are.

* `Schema.Reaches`: a type whose selections apply to a possible type, the type itself or one above.
* `Schema.Fits`: narrowed selections in which only known type conditions decide.
* `UsageWalk.gathers_applicable`: what the walk finds collects what the selections collect;
  `Execution.plainFor_of_unadornedIn`: so does what the rewriting keeps.
* `gathers_applicable_iff_keptFor`: **both collect the same for the possible type**.
-/

namespace RemoteNodes

variable {schema : Schema} {x : Execution} {t u p : NamedType} {ss inner : List Selection}
  {s : Selection} {condition? : Option String} {condition possible : String}
  {directives : List Directive}

/-! ### Types above a possible type -/

namespace Schema

/-- What is selected on a type counts for objects of a type that is the same or under it. -/
def Reaches (schema : Schema) (t p : NamedType) : Prop :=
  t.name = p.name ∨ schema.isSubType t p.name = true

lemma reaches_iff : schema.Reaches t p
    ↔ (t.name == p.name || (t.isAbstract && schema.isSubType t p.name)) = true := by
  rw [Reaches, Bool.or_eq_true, beq_iff_eq, Bool.and_eq_true]
  exact or_congr_right ⟨fun h => ⟨isAbstract_of_isSubType h, h⟩, fun h => h.2⟩

/-- A known condition applies to a type exactly if what is selected on the type of the condition
counts for its objects. -/
lemma applies_iff_reaches (hu : schema.type? condition = some u) :
    schema.Applies condition p.name ↔ schema.Reaches u p := by
  obtain rfl := name_of_type? hu
  refine or_congr_right ⟨fun ⟨u', hu', h⟩ => ?_, fun h => ⟨u, hu, h⟩⟩
  rwa [Option.some.inj (hu.symm.trans hu')]

/-! ### Selections with known conditions only -/

/-- Narrowed selections on a type, without spreads and directives and with known type conditions. -/
structure Fits (schema : Schema) (t : NamedType) (ss : List Selection) : Prop where
  narrowed : narrowAll schema t ss = ss
  unadorned : UnadornedIn ss
  names : schema.Names (conditionsIn ss)

namespace Fits

lemma leaves (h : schema.Fits t ss) (hs : s ∈ ss) : schema.Leaves t s :=
  leaves_of_mem_narrowAll (h.narrowed.symm ▸ hs)

lemma of_cons (h : schema.Fits t (s :: ss)) : schema.Fits t ss where
  narrowed := narrowAll_eq_self fun _ hs => h.leaves (List.mem_cons_of_mem _ hs)
  unadorned _ hs := h.unadorned _ (List.mem_cons_of_mem _ hs)
  names := names_conditionsIn_iff.mpr fun _ hs => h.names.of_mem (List.mem_cons_of_mem _ hs)

/-- An inline fragment has no directives, and its selections fit its type. -/
lemma of_inline (h : schema.Fits t ss) (hs : .inline condition? directives inner ∈ ss) :
    directives = [] ∧ schema.Fits (schema.conditionType t condition?) inner := by
  obtain ⟨hdirectives, hplain⟩ := Selection.unadorned_inline.mp (h.unadorned _ hs)
  obtain ⟨-, hinner⟩ := Selection.narrow?_inline.mp (h.leaves hs).2
  rw [Selection.inline.injEq] at hinner
  exact ⟨hdirectives, hinner.2.2.symm, hplain,
    names_conditionsIn_iff.mpr (h.names.of_mem hs).of_inline⟩

/-- An inline fragment on a type that counts for a possible type applies to it exactly if its own
type counts for it. -/
lemma forall_applies_iff (h : schema.Fits t ss) (hs : .inline condition? directives inner ∈ ss)
    (hp : schema.Reaches t p) :
    (∀ condition, condition? = some condition → schema.Applies condition p.name)
      ↔ schema.Reaches (schema.conditionType t condition?) p := by
  cases condition? with
  | none => exact iff_of_true (fun _ h => nomatch h) hp
  | some condition =>
      have hname := h.names.of_mem hs condition (by simp [Selection.conditions])
      obtain ⟨u, hu⟩ := Option.isSome_iff_exists.mp hname
      have hu := (composite?_eq_some.mp hu).1
      rw [conditionType, hu, Option.getD_some, ← applies_iff_reaches hu]
      exact ⟨fun h => h _ rfl, fun h _ heq => Option.some.inj heq ▸ h⟩

end Fits

end Schema

/-! ### What the walk finds -/

/-- What the walk finds of fitting selections collects the same for the possible type. -/
lemma UsageWalk.gathers_applicable {w : UsageWalk} {document : Document}
    (hp : w.schema.Reaches t p) (hss : w.schema.Fits t ss) :
    x.Gathers w.schema document p.name (w.applicable t p ss) s
      ↔ x.Gathers w.schema document p.name ss s := by
  induction t, ss using UsageWalk.applicable.induct w with
  | case1 t => rw [applicable]
  | case2 t alias? name arguments directives selections? ss ih =>
      have hdefines : t.defines name = true := (hss.leaves List.mem_cons_self).1
      rw [applicable, if_pos hdefines, List.singleton_append, Execution.gathers_cons,
        Execution.gathers_cons _ ss, ih hp hss.of_cons]
  | case3 t condition? directives inner ss u ihinner ih =>
      obtain ⟨rfl, hinner⟩ := hss.of_inline List.mem_cons_self
      have happlies := hss.forall_applies_iff List.mem_cons_self hp
      rw [applicable, Execution.gathers_append, Execution.gathers_cons _ ss, ih hp hss.of_cons,
        Execution.gathers_inline, happlies]
      refine or_congr_left ?_
      by_cases hu : w.schema.Reaches u p
      · -- an abstract type is entered, and all of what is selected on the possible type counts
        rw [if_pos (Schema.reaches_iff.mp hu)]
        split
        · simp [hu, u, x.admits_nil, ihinner hu hinner]
        · simp [hu, u, x.admits_nil]
      · rw [if_neg (Schema.reaches_iff.not.mp hu)]
        exact iff_of_false Execution.gathers_nil fun h => hu h.2.1
  | case4 t fragment directives ss ih =>
      exact absurd (hss.unadorned _ List.mem_cons_self) Selection.not_unadorned_spread

/-! ### What the rewriting keeps -/

/-- Unadorned selections lose nothing and gain nothing when they are flattened. -/
lemma Execution.plainFor_of_unadornedIn {customs : List Fragment} (h : UnadornedIn ss) :
    x.PlainFor schema customs possible ss := by
  have hinline {condition? : Option String} {directives : List Directive}
      {inner ss : List Selection} (h : UnadornedIn (.inline condition? directives inner :: ss)) :
      x.Admits directives ∧ UnadornedIn inner := by
    obtain ⟨rfl, hinner⟩ := Selection.unadorned_inline.mp (h _ List.mem_cons_self)
    exact ⟨x.admits_nil, hinner⟩
  induction ss using Execution.PlainFor.induct with
  | case1 => rw [PlainFor]; trivial
  | case2 _ _ _ _ _ ss ih =>
      rw [PlainFor]
      exact ih fun s hs => h s (List.mem_cons_of_mem _ hs)
  | case3 directives inner ss ihinner ih =>
      rw [PlainFor]
      exact ⟨(hinline h).imp_right ihinner, ih fun s hs => h s (List.mem_cons_of_mem _ hs)⟩
  | case4 condition directives inner ss ihinner ih =>
      rw [PlainFor]
      exact ⟨fun _ => (hinline h).imp_right ihinner,
        ih fun s hs => h s (List.mem_cons_of_mem _ hs)⟩
  | case5 fragment directives ss ih =>
      exact absurd (h _ List.mem_cons_self) Selection.not_unadorned_spread

/-- **Both ways to find what applies to a possible type agree.** Of narrowed selections on an
abstract type in which only known type conditions decide, they collect the same fields for objects
of a possible type: those that the selections collect for them. -/
theorem gathers_applicable_iff_keptFor (schema : Schema) (references : References)
    (customs : List Fragment) (hp : p ∈ schema.possibleTypes t)
    (hnarrowed : narrowAll schema t ss = ss) (hunadorned : UnadornedIn ss)
    (hnames : schema.Names (conditionsIn ss)) (x : Execution) (s : Selection) :
    (x.Gathers schema (customs.map .fragment) p.name
        ((usageWalk schema references customs).applicable t p ss) s
      ↔ x.Gathers schema (customs.map .fragment) p.name
        ((shallowing schema references customs).keptFor p.name ss) s)
    ∧ (x.Gathers schema (customs.map .fragment) p.name
        ((shallowing schema references customs).keptFor p.name ss) s
      ↔ x.Gathers schema (customs.map .fragment) p.name ss s) := by
  have hplain : x.PlainFor schema customs p.name ss :=
    Execution.plainFor_of_unadornedIn hunadorned
  refine ⟨?_, gathers_keptFor hplain⟩
  have hreaches : schema.Reaches t p := .inr (Schema.isSubType_of_mem_possibleTypes hp)
  exact (UsageWalk.gathers_applicable (w := usageWalk schema references customs) hreaches
    ⟨hnarrowed, hunadorned, hnames⟩).trans (gathers_keptFor hplain).symm

/-- Items, with what is asked for of each kind inside a fragment on all of them. -/
def itemsByKind : List Selection :=
  [.inline (some "Item") [] [.inline (some "Foo") [] [.plain "name"],
    .inline (some "Meta") [] [.plain "note"]]]

lemma names_itemsByKind : itemSchema.Names (conditionsIn itemsByKind) := by
  rw [Schema.Names]
  decide

/-- The walk takes the name out of both fragments, and the rewriting leaves it where it is. For
items of the type they collect the same. -/
theorem gathers_applicable_iff_keptFor_items :
    (usageWalk itemSchema fooReferences []).applicable itemType fooType itemsByKind
      = [.plain "name"]
    ∧ (shallowing itemSchema fooReferences []).keptFor "Foo" itemsByKind = itemsByKind
    ∧ ∀ (x : Execution) (s : Selection),
      (x.Gathers itemSchema [] "Foo"
          ((usageWalk itemSchema fooReferences []).applicable itemType fooType itemsByKind) s
        ↔ x.Gathers itemSchema [] "Foo"
          ((shallowing itemSchema fooReferences []).keptFor "Foo" itemsByKind) s)
      ∧ (x.Gathers itemSchema [] "Foo"
          ((shallowing itemSchema fooReferences []).keptFor "Foo" itemsByKind) s
        ↔ x.Gathers itemSchema [] "Foo" itemsByKind s) :=
  ⟨by cbv, by cbv, gathers_applicable_iff_keptFor itemSchema fooReferences [] (p := fooType)
    (t := itemType) (by decide) (by cbv) (by decide) names_itemsByKind⟩

end RemoteNodes
