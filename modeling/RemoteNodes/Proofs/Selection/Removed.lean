import Mathlib.Tactic
import RemoteNodes.Proofs.Document.Uses
import RemoteNodes.Proofs.Selection.FieldTree
import RemoteNodes.Proofs.Selection.Narrowed
import RemoteNodes.Proofs.Selection.Narrowing
/-!
What narrowing takes away, told by the selections alone.

* `Selection.Removed`: undefined fields, and what holds nothing but what is removed.
* `Selection.LeftOf`, `Remains`: selections without what is removed, at every depth.
  `remains_iff`: **narrowing leaves what remains**.
* `UndefinedAt`: the places of undefined fields. `enumerates_narrowWarnings`: **each of them causes
  one warning, in their order**.
* `narrowWarnings_narrowAll`: narrowed selections cause no warnings.
* `narrowAll_exact`: all of it.
-/

namespace RemoteNodes

section Specification

variable (schema : Schema)

/-- A selection on a type is removed: it is a field that the type does not define, or it is a field
or an inline fragment and all that it holds is removed. What introspection fields hold stays. -/
inductive Selection.Removed : NamedType → Selection → Prop
  | undefined {t : NamedType} {alias? : Option String} {name : String} {arguments : List Argument}
      {directives : List Directive} {selections? : Option (List Selection)}
      (h : t.defines name = false) : Removed t (.field alias? name arguments directives selections?)
  | field {t : NamedType} {alias? : Option String} {name : String} {arguments : List Argument}
      {directives : List Directive} {ss : List Selection} (hname : isMetaName name = false)
      (h : ∀ s ∈ ss, Removed (schema.memberResult t name) s) :
      Removed t (.field alias? name arguments directives (some ss))
  | inline {t : NamedType} {condition? : Option String} {directives : List Directive}
      {ss : List Selection} (h : ∀ s ∈ ss, Removed (schema.conditionType t condition?) s) :
      Removed t (.inline condition? directives ss)

mutual
/-- What is left of a selection on a type that is not removed: all but what is removed inside it. -/
inductive Selection.LeftOf : NamedType → Selection → Selection → Prop
  | leaf {t : NamedType} {alias? : Option String} {name : String} {arguments : List Argument}
      {directives : List Directive} :
      Selection.LeftOf t (.field alias? name arguments directives none)
        (.field alias? name arguments directives none)
  | introspection {t : NamedType} {alias? : Option String} {name : String}
      {arguments : List Argument} {directives : List Directive} {ss : List Selection}
      (hname : isMetaName name = true) :
      Selection.LeftOf t (.field alias? name arguments directives (some ss))
        (.field alias? name arguments directives (some ss))
  | field {t : NamedType} {alias? : Option String} {name : String} {arguments : List Argument}
      {directives : List Directive} {ss ss' : List Selection} (hname : isMetaName name = false)
      (h : Remains (schema.memberResult t name) ss ss') :
      Selection.LeftOf t (.field alias? name arguments directives (some ss))
        (.field alias? name arguments directives (some ss'))
  | spread {t : NamedType} {fragment : String} {directives : List Directive} :
      Selection.LeftOf t (.spread fragment directives) (.spread fragment directives)
  | inline {t : NamedType} {condition? : Option String} {directives : List Directive}
      {ss ss' : List Selection} (h : Remains (schema.conditionType t condition?) ss ss') :
      Selection.LeftOf t (.inline condition? directives ss) (.inline condition? directives ss')
/-- What remains of selections on a type: those that are not removed, in their order, with what is
left of them. -/
inductive Remains : NamedType → List Selection → List Selection → Prop
  | nil {t : NamedType} : Remains t [] []
  | removed {t : NamedType} {s : Selection} {ss ss' : List Selection} (hs : s.Removed schema t)
      (h : Remains t ss ss') : Remains t (s :: ss) ss'
  | kept {t : NamedType} {s s' : Selection} {ss ss' : List Selection} (hs : ¬ s.Removed schema t)
      (hs' : Selection.LeftOf t s s') (h : Remains t ss ss') : Remains t (s :: ss) (s' :: ss')
end

/-- At a place in selections on a type stands a field that is not defined there, with the warning
about it. Neither is it inside of such a field, nor does an introspection field hold it. A place
says which of the selections it is, and which of those inside, and so on. -/
inductive UndefinedAt : NamedType → List Selection → List Nat → Warning → Prop
  | here {t : NamedType} {ss : List Selection} {i : Nat} {alias? : Option String} {name : String}
      {arguments : List Argument} {directives : List Directive}
      {selections? : Option (List Selection)}
      (hs : ss[i]? = some (.field alias? name arguments directives selections?))
      (h : t.defines name = false) : UndefinedAt t ss [i] (t.undefinedField name)
  | field {t : NamedType} {ss inner : List Selection} {i : Nat} {alias? : Option String}
      {name : String} {arguments : List Argument} {directives : List Directive} {place : List Nat}
      {warning : Warning}
      (hs : ss[i]? = some (.field alias? name arguments directives (some inner)))
      (hname : isMetaName name = false) (hdefines : t.defines name = true)
      (h : UndefinedAt (schema.memberResult t name) inner place warning) :
      UndefinedAt t ss (i :: place) warning
  | inline {t : NamedType} {ss inner : List Selection} {i : Nat} {condition? : Option String}
      {directives : List Directive} {place : List Nat} {warning : Warning}
      (hs : ss[i]? = some (.inline condition? directives inner))
      (h : UndefinedAt (schema.conditionType t condition?) inner place warning) :
      UndefinedAt t ss (i :: place) warning

end Specification

variable {schema : Schema} {t : NamedType} {s s' : Selection} {ss ss' : List Selection}

/-! ### What is removed -/

/-- Nothing is left by narrowing exactly if nothing is left of each selection. -/
lemma narrowAll_eq_nil_iff : narrowAll schema t ss = []
    ↔ ∀ s ∈ ss, t.accepts s = true → s.narrow? schema t = none := by
  simp only [List.eq_nil_iff_forall_not_mem, mem_narrowAll, not_exists, not_and,
    Option.eq_none_iff_forall_ne_some]
  exact ⟨fun h s hs haccepts s' => h s' s hs haccepts, fun h s' s hs haccepts => h s hs haccepts s'⟩

/-- **A selection is removed exactly if** its type does not accept it or narrowing leaves nothing of
it. -/
lemma Selection.removed_iff :
    s.Removed schema t ↔ (t.accepts s = true → s.narrow? schema t = none) := by
  have hset {u : NamedType} {ss : List Selection}
      (ih : ∀ s ∈ ss, ∀ u, s.Removed schema u
        ↔ (u.accepts s = true → s.narrow? schema u = none)) :
      (∀ s ∈ ss, s.Removed schema u) ↔ narrowAll schema u ss = [] := by
    rw [narrowAll_eq_nil_iff]
    exact forall₂_congr fun s hs => ih s hs u
  induction s using Selection.induct generalizing t with
  | leaf alias? name arguments directives =>
      rw [NamedType.accepts, narrow?]
      refine ⟨fun h => ?_, fun h => .undefined (by simpa using h)⟩
      cases h with
      | undefined h => simp [h]
  | composite alias? name arguments directives ss ih =>
      rw [NamedType.accepts]
      constructor
      · intro h hdefined
        cases h with
        | undefined h => simp [hdefined] at h
        | field hname h =>
            rw [Option.eq_none_iff_forall_ne_some]
            intro s' hs'
            exact ((narrow?_composite hname).mp hs').1 ((hset fun s hs u => @ih s hs u).mp h)
      · intro h
        cases hdefined : t.defines name with
        | false => exact .undefined hdefined
        | true =>
            have hnone := h hdefined
            cases hname : isMetaName name with
            | true => cases (narrow?_meta hname).symm.trans hnone
            | false =>
                refine .field hname ((hset fun s hs u => @ih s hs u).mpr ?_)
                by_contra hne
                cases ((narrow?_composite hname).mpr ⟨hne, rfl⟩).symm.trans hnone
  | spread fragment directives =>
      refine iff_of_false (fun h => ?_) fun h => ?_
      · cases h
      · cases h rfl
  | inline condition? directives ss ih =>
      constructor
      · intro h _
        cases h with
        | inline h =>
            rw [Option.eq_none_iff_forall_ne_some]
            intro s' hs'
            exact (narrow?_inline.mp hs').1 ((hset fun s hs u => @ih s hs u).mp h)
      · intro h
        refine .inline ((hset fun s hs u => @ih s hs u).mpr ?_)
        by_contra hne
        cases (narrow?_inline.mpr ⟨hne, rfl⟩).symm.trans (h rfl)

/-! ### What remains -/

/-- Selections are narrowed to what remains of them, if each is to what is left of it. -/
private lemma remains_iff_of (h : ∀ s ∈ ss, ∀ s', ¬ s.Removed schema t →
      (s.LeftOf schema t s' ↔ s.narrow? schema t = some s')) :
    Remains schema t ss ss' ↔ ss' = narrowAll schema t ss := by
  induction ss generalizing ss' with
  | nil =>
      refine ⟨fun hremains => ?_, fun heq => heq ▸ .nil⟩
      cases hremains
      rfl
  | cons s ss ih =>
      obtain ⟨hs, hss⟩ := List.forall_mem_cons.mp h
      by_cases hremoved : s.Removed schema t
      · have hgone : narrowAll schema t (s :: ss) = narrowAll schema t ss := by
          rw [narrowAll]
          split
          · rename_i haccepts
            rw [Selection.removed_iff.mp hremoved haccepts, Option.toList_none, List.nil_append]
          · rfl
        rw [hgone, ← ih hss]
        refine ⟨fun hremains => ?_, .removed hremoved⟩
        cases hremains with
        | removed _ hrest => exact hrest
        | kept hs _ _ => exact absurd hremoved hs
      · obtain ⟨haccepts, hne⟩ := Classical.not_imp.mp (mt Selection.removed_iff.mpr hremoved)
        obtain ⟨left, hleft⟩ := Option.ne_none_iff_exists'.mp hne
        have hkept : narrowAll schema t (s :: ss) = left :: narrowAll schema t ss := by
          rw [narrowAll, if_pos haccepts, hleft]
          rfl
        rw [hkept]
        constructor
        · intro hremains
          cases hremains with
          | removed hs _ => exact absurd hs hremoved
          | kept _ hs' hrest =>
              obtain rfl := Option.some.inj (hleft.symm.trans ((hs _ hremoved).mp hs'))
              rw [(ih hss).mp hrest]
        · rintro rfl
          exact .kept hremoved ((hs _ hremoved).mpr hleft) ((ih hss).mpr rfl)

/-- What is left of a selection that is not removed is what it is narrowed to. -/
lemma Selection.leftOf_iff (h : ¬ s.Removed schema t) :
    s.LeftOf schema t s' ↔ s.narrow? schema t = some s' := by
  induction s using Selection.induct generalizing t s' with
  | leaf alias? name arguments directives =>
      rw [narrow?]
      refine ⟨fun hleft => ?_, fun heq => Option.some.inj heq ▸ .leaf⟩
      cases hleft
      rfl
  | composite alias? name arguments directives ss ih =>
      cases hname : isMetaName name with
      | true =>
          rw [narrow?_meta hname]
          refine ⟨fun hleft => ?_, fun heq => Option.some.inj heq ▸ .introspection hname⟩
          cases hleft with
          | introspection _ => rfl
          | field hname' _ => simp [hname] at hname'
      | false =>
          have hinner {ss' : List Selection} :
              Remains schema (schema.memberResult t name) ss ss' ↔ _ :=
            remains_iff_of fun s hs s' => @ih s hs _ s'
          rw [narrow?_composite hname]
          constructor
          · intro hleft
            cases hleft with
            | introspection hname' => simp [hname] at hname'
            | field _ hremains =>
                obtain rfl := hinner.mp hremains
                refine ⟨fun hnil => h (.field hname fun s hs => removed_iff.mpr ?_), rfl⟩
                exact narrowAll_eq_nil_iff.mp hnil s hs
          · rintro ⟨-, rfl⟩
            exact .field hname (hinner.mpr rfl)
  | spread fragment directives =>
      rw [narrow?]
      refine ⟨fun hleft => ?_, fun heq => Option.some.inj heq ▸ .spread⟩
      cases hleft
      rfl
  | inline condition? directives ss ih =>
      have hinner {ss' : List Selection} :
          Remains schema (schema.conditionType t condition?) ss ss' ↔ _ :=
        remains_iff_of fun s hs s' => @ih s hs _ s'
      rw [narrow?_inline]
      constructor
      · intro hleft
        cases hleft with
        | inline hremains =>
            obtain rfl := hinner.mp hremains
            refine ⟨fun hnil => h (.inline fun s hs => removed_iff.mpr ?_), rfl⟩
            exact narrowAll_eq_nil_iff.mp hnil s hs
      · rintro ⟨-, rfl⟩
        exact .inline (hinner.mpr rfl)

/-- **Narrowing leaves what remains**: the selections that are not removed, in their order, with
what is left of them. -/
theorem remains_iff : Remains schema t ss ss' ↔ ss' = narrowAll schema t ss :=
  remains_iff_of fun _ _ _ => Selection.leftOf_iff

/-! ### Warnings -/

/-- At a place inside a selection that its type accepts stands an undefined field. -/
def Selection.UndefinedInside (schema : Schema) (t : NamedType) (s : Selection)
    (place : List Nat) (warning : Warning) : Prop :=
  match s with
  | .field _ name _ _ (some inner) =>
    isMetaName name = false ∧ UndefinedAt schema (schema.memberResult t name) inner place warning
  | .inline condition? _ inner =>
    UndefinedAt schema (schema.conditionType t condition?) inner place warning
  | _ => False

/-- A selection is itself an undefined field. -/
def NamedType.WarnsOf (t : NamedType) (s : Selection) (warning : Warning) : Prop :=
  t.accepts s = false ∧ ∃ name, s.fieldName? = some name ∧ warning = t.undefinedField name

section Warnings

variable {place : List Nat} {warning : Warning}

lemma undefinedAt_iff : UndefinedAt schema t ss place warning ↔ ∃ i s rest,
    place = i :: rest ∧ ss[i]? = some s ∧ ((rest = [] ∧ t.WarnsOf s warning)
      ∨ t.accepts s = true ∧ s.UndefinedInside schema t rest warning) := by
  constructor
  · intro h
    cases h with
    | here hs h => exact ⟨_, _, _, rfl, hs, .inl ⟨rfl, h, _, rfl, rfl⟩⟩
    | field hs hname hdefines h => exact ⟨_, _, _, rfl, hs, .inr ⟨hdefines, hname, h⟩⟩
    | inline hs h => exact ⟨_, _, _, rfl, hs, .inr ⟨rfl, h⟩⟩
  · rintro ⟨i, s, rest, rfl, hs, ⟨rfl, haccepts, name, hname, rfl⟩ | ⟨haccepts, h⟩⟩
    · cases s with
      | field alias? name' arguments directives selections? =>
          cases hname
          exact .here hs haccepts
      | spread fragment directives | inline condition? directives ss => cases hname
    · cases s with
      | field alias? name arguments directives selections? =>
          cases selections? with
          | none => cases h
          | some inner => exact .field hs h.1 haccepts h.2
      | spread fragment directives => cases h
      | inline condition? directives ss => exact .inline hs h

/-- The warning about a selection itself stands at the place of the selection. -/
lemma NamedType.enumerates_warnings (t : NamedType) (s : Selection) :
    Enumerates (fun place w => place = [] ∧ t.WarnsOf s w) (t.warnings s) := by
  have hnone (haccepts : t.accepts s = true) (hwarnings : t.warnings s = []) :
      Enumerates (fun place w => place = [] ∧ t.WarnsOf s w) (t.warnings s) := by
    rw [hwarnings]
    refine .nil fun place w h => ?_
    simp [haccepts, WarnsOf] at h
  cases haccepts : t.accepts s with
  | true => exact hnone haccepts (warnings_eq_nil_iff.mpr haccepts)
  | false =>
      cases s with
      | field alias? name arguments directives selections? =>
          rw [accepts] at haccepts
          rw [warnings, if_neg (by simp [haccepts])]
          refine (Enumerates.single [] _).congr fun place w => and_congr_right fun _ => ?_
          simp [WarnsOf, accepts, haccepts, Selection.fieldName?]
      | spread fragment directives | inline condition? directives ss => cases haccepts

lemma narrowWarnings_eq_flatMap : narrowWarnings schema t ss = ss.flatMap fun s =>
    t.warnings s ++ if t.accepts s then s.narrowWarnings schema t else [] := by
  induction ss with
  | nil => rfl
  | cons s ss ih => rw [narrowWarnings_cons, List.flatMap_cons, ih]

/-- The warnings about selections are those at their places, if it is so inside each of them. -/
private lemma enumerates_narrowWarnings_of (h : ∀ s ∈ ss,
      Enumerates (s.UndefinedInside schema t) (s.narrowWarnings schema t)) :
    Enumerates (UndefinedAt schema t ss) (narrowWarnings schema t ss) := by
  have heach : ∀ s ∈ ss, Enumerates (fun rest w => (rest = [] ∧ t.WarnsOf s w)
      ∨ t.accepts s = true ∧ s.UndefinedInside schema t rest w)
        (t.warnings s ++ if t.accepts s then s.narrowWarnings schema t else []) := by
    intro s hs
    cases haccepts : t.accepts s with
    | false =>
        rw [if_neg (by simp), List.append_nil]
        exact (t.enumerates_warnings s).congr fun place w => by simp
    | true =>
        rw [if_pos rfl]
        refine ((t.enumerates_warnings s).append (h s hs) ?_).congr fun place w => by simp
        rintro _ w place _ ⟨-, hwarns⟩
        simp [haccepts, NamedType.WarnsOf] at hwarns
  rw [narrowWarnings_eq_flatMap]
  exact (Enumerates.flatMap heach).congr fun place w => undefinedAt_iff

lemma Selection.enumerates_narrowWarnings (s : Selection) (t : NamedType) :
    Enumerates (s.UndefinedInside schema t) (s.narrowWarnings schema t) := by
  induction s using Selection.induct generalizing t with
  | leaf alias? name arguments directives => exact .nil fun _ _ => id
  | composite alias? name arguments directives ss ih =>
      rw [narrowWarnings]
      split
      · rename_i hname
        refine .nil fun place w h => ?_
        simp [UndefinedInside, hname] at h
      · rename_i hname
        rw [Bool.not_eq_true] at hname
        refine (enumerates_narrowWarnings_of fun s hs => ih s hs _).congr fun place w => ?_
        simp [UndefinedInside, hname]
  | spread fragment directives => exact .nil fun _ _ => id
  | inline condition? directives ss ih =>
      rw [narrowWarnings]
      exact enumerates_narrowWarnings_of fun s hs => ih s hs _

/-- **Each undefined field that is removed by itself causes one warning**, in the order of their
places. -/
theorem enumerates_narrowWarnings (schema : Schema) (t : NamedType) (ss : List Selection) :
    Enumerates (UndefinedAt schema t ss) (narrowWarnings schema t ss) :=
  enumerates_narrowWarnings_of fun s _ => s.enumerates_narrowWarnings t

end Warnings

/-! ### Narrowing again -/

/-- What is left of a selection causes no warning. -/
lemma Selection.narrowWarnings_of_narrow? (h : s.narrow? schema t = some s') :
    s'.narrowWarnings schema t = [] := by
  have hset {u : NamedType} {ss : List Selection}
      (ih : ∀ s ∈ ss, ∀ s', s.narrow? schema u = some s' → s'.narrowWarnings schema u = []) :
      RemoteNodes.narrowWarnings schema u (narrowAll schema u ss) = [] := by
    refine narrowWarnings_eq_nil_iff.mpr fun s' hs' => ?_
    obtain ⟨s, hs, haccepts, hnarrow⟩ := mem_narrowAll.mp hs'
    exact ⟨(accepts_of_narrow? hnarrow u).trans haccepts, ih s hs s' hnarrow⟩
  induction s using Selection.induct generalizing t s' with
  | leaf alias? name arguments directives =>
      cases h
      rw [narrowWarnings]
  | composite alias? name arguments directives ss ih =>
      cases hname : isMetaName name with
      | true =>
          cases (narrow?_meta hname).symm.trans h
          rw [narrowWarnings, if_pos hname]
      | false =>
          obtain ⟨-, rfl⟩ := (narrow?_composite hname).mp h
          rw [narrowWarnings, if_neg (by simp [hname])]
          exact hset fun s hs s' => @ih s hs _ s'
  | spread fragment directives =>
      cases h
      rw [narrowWarnings]
  | inline condition? directives ss ih =>
      obtain ⟨-, rfl⟩ := narrow?_inline.mp h
      rw [narrowWarnings]
      exact hset fun s hs s' => @ih s hs _ s'

/-- Narrowed selections cause no warnings. -/
theorem narrowWarnings_narrowAll (ss : List Selection) :
    narrowWarnings schema t (narrowAll schema t ss) = [] := by
  refine narrowWarnings_eq_nil_iff.mpr fun s' hs' => ?_
  obtain ⟨s, -, haccepts, hnarrow⟩ := mem_narrowAll.mp hs'
  exact ⟨(Selection.accepts_of_narrow? hnarrow t).trans haccepts,
    Selection.narrowWarnings_of_narrow? hnarrow⟩

/-- **Narrowing is exact and stable.** It leaves what remains of selections when those that are
removed are taken out at every depth, all else as it is; undefined fields that are not inside of
others cause one warning each; and what it leaves stays as it is, without a warning, when it is
narrowed again. -/
theorem narrowAll_exact (schema : Schema) (t : NamedType) (ss : List Selection) :
    (∀ ss', Remains schema t ss ss' ↔ ss' = narrowAll schema t ss)
      ∧ Enumerates (UndefinedAt schema t ss) (narrowWarnings schema t ss)
      ∧ narrowAll schema t (narrowAll schema t ss) = narrowAll schema t ss
      ∧ narrowWarnings schema t (narrowAll schema t ss) = [] :=
  ⟨fun _ => remains_iff, enumerates_narrowWarnings schema t ss, narrowAll_narrowAll ss,
    narrowWarnings_narrowAll ss⟩

end RemoteNodes
