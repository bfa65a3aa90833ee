import Mathlib.Tactic
import RemoteNodes.Fragment.Inlining
import RemoteNodes.Selection.Spread
/-!
Inlining as a tree. What inlining does with each selection is written down in an expansion, from
which both the selection before and the one after can be read; the fragments that are open around a
place of the tree are those that have been opened on the way to it.

* `Expansion`, `Expansion.before`, `Expansion.after`: a selection and what inlining makes of it.
* `Stands`: a place in a tree, with the fragments that are open around it.
* `Explains`: a tree that accounts for an inlining; `Explains.nodup`: no fragment is open twice
  around a place of it.
* `Meets`: a spread that inlining comes to.
* `inlineAll_explained`: **every inlining is accounted for or comes to an unknown name**.
* `Fragment.inlined_closes`: **an inlined fragment is closed, or a spread names no fragment**.
-/

namespace RemoteNodes

namespace Inlining

/-- What inlining does with a selection: it takes fields and inline fragments as they are, and a
spread is either opened or cut. -/
inductive Expansion where
  | leaf (alias? : Option String) (name : String) (arguments : List Argument)
    (directives : List Directive)
  | field (alias? : Option String) (name : String) (arguments : List Argument)
    (directives : List Directive) (inner : List Expansion)
  | inline (condition? : Option String) (directives : List Directive) (inner : List Expansion)
  | opened (name : String) (directives : List Directive) (inner : List Expansion)
  | cut (name : String) (directives : List Directive)

namespace Expansion

/-- The selection before inlining. -/
def before : Expansion → Selection
  | leaf alias? name arguments directives => .field alias? name arguments directives none
  | field alias? name arguments directives inner =>
    .field alias? name arguments directives (some (inner.map before))
  | inline condition? directives inner => .inline condition? directives (inner.map before)
  | opened name directives _ => .spread name directives
  | cut name directives => .spread name directives

/-- The selection after inlining. -/
def after (x : Inlining) : Expansion → Selection
  | leaf alias? name arguments directives => .field alias? name arguments directives none
  | field alias? name arguments directives inner =>
    .field alias? name arguments directives (some (inner.map (after x)))
  | inline condition? directives inner => .inline condition? directives (inner.map (after x))
  | opened name _ inner => .inline (some name) [] (inner.map (after x))
  | cut _ _ => x.cut

end Expansion

/-- A place in a tree, from the fragments that are open around the tree to those that are open
around the place. -/
inductive Stands : List String → Expansion → List String → Expansion → Prop
  | here {around : List String} {e : Expansion} : Stands around e around e
  | field {around around' : List String} {inner : List Expansion} {e e' : Expansion}
      {alias? : Option String} {name : String} {arguments : List Argument}
      {directives : List Directive} (he : e ∈ inner) (h : Stands around e around' e') :
      Stands around (.field alias? name arguments directives inner) around' e'
  | inline {around around' : List String} {inner : List Expansion} {e e' : Expansion}
      {condition? : Option String} {directives : List Directive} (he : e ∈ inner)
      (h : Stands around e around' e') :
      Stands around (.inline condition? directives inner) around' e'
  | opened {around around' : List String} {inner : List Expansion} {e e' : Expansion}
      {name : String} {directives : List Directive} (he : e ∈ inner)
      (h : Stands (name :: around) e around' e') :
      Stands around (.opened name directives inner) around' e'

/-- A tree accounts for an inlining: it opens a fragment, with what the fragment selects, where the
fragment is not open around it, and cuts a spread where its fragment is. -/
structure Explains (x : Inlining) (around : List String) (e : Expansion) : Prop where
  opened : ∀ {around' name directives inner},
    Stands around e around' (.opened name directives inner) →
      name ∉ around' ∧ ∃ f, x.find? name = some f ∧ inner.map Expansion.before = f.selections
  cut : ∀ {around' name directives}, Stands around e around' (.cut name directives) →
    name ∈ around'

/-- A spread that inlining comes to, with the fragments that are open around it. -/
inductive Meets (x : Inlining) : List String → Selection → List String → String → Prop
  | here {around : List String} {name : String} {directives : List Directive} :
      Meets x around (.spread name directives) around name
  | field {around around' : List String} {inner : List Selection} {s : Selection}
      {name name' : String} {alias? : Option String} {arguments : List Argument}
      {directives : List Directive} (hs : s ∈ inner) (h : Meets x around s around' name') :
      Meets x around (.field alias? name arguments directives (some inner)) around' name'
  | inline {around around' : List String} {inner : List Selection} {s : Selection} {name' : String}
      {condition? : Option String} {directives : List Directive} (hs : s ∈ inner)
      (h : Meets x around s around' name') :
      Meets x around (.inline condition? directives inner) around' name'
  | opened {around around' : List String} {s : Selection} {name name' : String}
      {directives : List Directive} {f : Fragment} (hname : name ∉ around)
      (hf : x.find? name = some f) (hs : s ∈ f.selections)
      (h : Meets x (name :: around) s around' name') :
      Meets x around (.spread name directives) around' name'

variable {x : Inlining} {around around' : List String} {e e' : Expansion}

/-! ### Places in a tree -/

/-- No fragment is open twice around a place of a tree that accounts for an inlining. -/
lemma Explains.nodup (h : x.Explains around e) (haround : around.Nodup)
    (hstands : Stands around e around' e') : around'.Nodup := by
  obtain ⟨hopened, -⟩ := h
  induction hstands with
  | here => exact haround
  | field he _ ih => exact ih haround fun h => hopened (.field he h)
  | inline he _ ih => exact ih haround fun h => hopened (.inline he h)
  | opened he _ ih =>
      have hname := (hopened .here).1
      exact ih (List.nodup_cons.mpr ⟨hname, haround⟩) fun h => hopened (.opened he h)

lemma explains_leaf {alias? : Option String} {name : String} {arguments : List Argument}
    {directives : List Directive} : x.Explains around (.leaf alias? name arguments directives) :=
  ⟨nofun, nofun⟩

lemma explains_cut {name : String} {directives : List Directive} (hname : name ∈ around) :
    x.Explains around (.cut name directives) := by
  refine ⟨nofun, fun h => ?_⟩
  cases h
  exact hname

lemma explains_field {alias? : Option String} {name : String} {arguments : List Argument}
    {directives : List Directive} {inner : List Expansion}
    (hinner : ∀ e ∈ inner, x.Explains around e) :
    x.Explains around (.field alias? name arguments directives inner) := by
  refine ⟨fun h => ?_, fun h => ?_⟩
  all_goals cases h with | field he h => ?_
  · exact (hinner _ he).opened h
  · exact (hinner _ he).cut h

lemma explains_inline {condition? : Option String} {directives : List Directive}
    {inner : List Expansion} (hinner : ∀ e ∈ inner, x.Explains around e) :
    x.Explains around (.inline condition? directives inner) := by
  refine ⟨fun h => ?_, fun h => ?_⟩
  all_goals cases h with | inline he h => ?_
  · exact (hinner _ he).opened h
  · exact (hinner _ he).cut h

lemma explains_opened {name : String} {directives : List Directive} {inner : List Expansion}
    {f : Fragment} (hname : name ∉ around) (hf : x.find? name = some f)
    (hbefore : inner.map Expansion.before = f.selections)
    (hinner : ∀ e ∈ inner, x.Explains (name :: around) e) :
    x.Explains around (.opened name directives inner) := by
  refine ⟨fun h => ?_, fun h => ?_⟩
  · cases h with
    | here => exact ⟨hname, f, hf, hbefore⟩
    | opened he h => exact (hinner _ he).opened h
  · cases h with
    | opened he h => exact (hinner _ he).cut h

/-- Nothing that inlining makes of a selection is or holds a spread. -/
lemma Expansion.spreadNames_after (x : Inlining) (e : Expansion) :
    (e.after x).spreadNames = [] := by
  induction e using Expansion.rec (motive_2 := fun es =>
      spreadNamesIn (es.map (Expansion.after x)) = []) with
  | leaf => simp only [after, Selection.spreadNames]
  | field _ _ _ _ _ ih => simpa only [after, Selection.spreadNames] using ih
  | inline _ _ _ ih => simpa only [after, Selection.spreadNames] using ih
  | opened _ _ _ ih => simpa only [after, Selection.spreadNames] using ih
  | cut => simp only [after, Inlining.cut, Selection.spreadNames]
  | nil => rfl
  | cons e es ihe ihes => rw [List.map_cons, spreadNamesIn, ihe, ihes, List.append_nil]

/-! ### Inlining -/

lemma inline_of_mem {name : String} (hname : name ∈ around) (directives : List Directive) :
    x.inline around (.spread name directives) = .ok x.cut := by
  rw [inline, dif_pos (by simpa using hname)]

lemma inline_of_find?_eq_none {name : String} (hname : name ∉ around) (hf : x.find? name = none)
    (directives : List Directive) :
    x.inline around (.spread name directives)
      = .error (.configuration (.noTypeFragment name)) := by
  rw [inline, dif_neg (by simpa using hname)]
  split
  · rfl
  · simp_all

/-- A spread whose fragment is not open gives way to what the fragment selects. -/
lemma inline_of_find? {name : String} {f : Fragment} (hname : name ∉ around)
    (hf : x.find? name = some f) (directives : List Directive) :
    x.inline around (.spread name directives)
      = (x.inlineAll (name :: around) f.selections).map (.inline (some name) []) := by
  rw [inline, dif_neg (by simpa using hname)]
  split
  · simp_all
  · simp_all

/-- Inlining of a selection cannot go on at a spread: its fragment is neither open around it nor to
be found. -/
def Fails (x : Inlining) (around : List String) (s : Selection) (name : String) : Prop :=
  ∃ around', x.Meets around s around' name ∧ name ∉ around' ∧ x.find? name = none

/-- Trees account for the inlining of selections, or inlining comes to a spread where it cannot go
on. -/
theorem inlineAll_explained (x : Inlining) (around : List String) (ss : List Selection) :
    (∃ es : List Expansion, es.map Expansion.before = ss
        ∧ x.inlineAll around ss = .ok (es.map (Expansion.after x))
        ∧ ∀ e ∈ es, x.Explains around e)
      ∨ ∃ s ∈ ss, ∃ name, x.Fails around s name
          ∧ x.inlineAll around ss = .error (.configuration (.noTypeFragment name)) := by
  induction around, ss using Inlining.inlineAll.induct x
    (fun around s =>
      (∃ e : Expansion, e.before = s ∧ x.inline around s = .ok (e.after x) ∧ x.Explains around e)
        ∨ ∃ name, x.Fails around s name
            ∧ x.inline around s = .error (.configuration (.noTypeFragment name))) with
  | case1 around alias? name arguments directives =>
      refine .inl ⟨.leaf alias? name arguments directives, ?_, ?_, explains_leaf⟩
      · rw [Expansion.before]
      · rw [inline, Expansion.after]
  | case2 around alias? name arguments directives ss ih =>
      rw [inline]
      rcases ih with ⟨es, hbefore, hafter, hes⟩ | ⟨s, hs, failed, ⟨around', hmeets, h⟩, herror⟩
      · refine .inl ⟨.field alias? name arguments directives es, ?_, ?_, explains_field hes⟩
        · rw [Expansion.before, hbefore]
        · rw [hafter, Expansion.after]; rfl
      · exact .inr ⟨failed, ⟨around', .field hs hmeets, h⟩, by rw [herror]; rfl⟩
  | case3 around condition? directives ss ih =>
      rw [inline]
      rcases ih with ⟨es, hbefore, hafter, hes⟩ | ⟨s, hs, failed, ⟨around', hmeets, h⟩, herror⟩
      · refine .inl ⟨.inline condition? directives es, ?_, ?_, explains_inline hes⟩
        · rw [Expansion.before, hbefore]
        · rw [hafter, Expansion.after]; rfl
      · exact .inr ⟨failed, ⟨around', .inline hs hmeets, h⟩, by rw [herror]; rfl⟩
  | case4 around name directives hopen =>
      have hname : name ∈ around := by simpa using hopen
      refine .inl ⟨.cut name directives, ?_, ?_, explains_cut hname⟩
      · rw [Expansion.before]
      · rw [inline_of_mem hname, Expansion.after]
  | case5 around name directives hopen hf =>
      have hname : name ∉ around := by simpa using hopen
      exact .inr ⟨name, ⟨around, .here, hname, hf⟩, inline_of_find?_eq_none hname hf directives⟩
  | case6 around name directives hopen f hf ih =>
      have hname : name ∉ around := by simpa using hopen
      rw [inline_of_find? hname hf]
      rcases ih with ⟨es, hbefore, hafter, hes⟩ | ⟨s, hs, failed, ⟨around', hmeets, h⟩, herror⟩
      · refine .inl ⟨.opened name directives es, ?_, ?_, explains_opened hname hf hbefore hes⟩
        · rw [Expansion.before]
        · rw [hafter, Expansion.after]; rfl
      · exact .inr ⟨failed, ⟨around', .opened hname hf hs hmeets, h⟩, by rw [herror]; rfl⟩
  | case7 => exact .inl ⟨[], rfl, by rw [inlineAll]; rfl, nofun⟩
  | case8 around s ss fault hfault ih =>
      rw [inlineAll, hfault]
      rcases ih with ⟨e, -, hafter, -⟩ | ⟨failed, hfails, herror⟩
      · cases hafter.symm.trans hfault
      · cases herror.symm.trans hfault
        exact .inr ⟨s, by simp, failed, hfails, rfl⟩
  | case9 around s ss s' hs' ih ihrest =>
      rw [inlineAll, hs']
      rcases ih with ⟨e, hbefore, hafter, he⟩ | ⟨failed, -, herror⟩
      swap
      · cases herror.symm.trans hs'
      cases hafter.symm.trans hs'
      rcases ihrest with ⟨es, hsbefore, hsafter, hes⟩ | ⟨t, ht, failed, hfails, herror⟩
      · refine .inl ⟨e :: es, ?_, ?_, List.forall_mem_cons.mpr ⟨he, hes⟩⟩
        · rw [List.map_cons, hbefore, hsbefore]
        · rw [hsafter]; rfl
      · exact .inr ⟨t, List.mem_cons_of_mem _ ht, failed, hfails, by rw [herror]; rfl⟩

end Inlining

open Inlining in
/-- Inlining of a fragment ends. Either a spread that it comes to, not open around, has neither a
reference fragment nor a type fragment, and the fault names it; or the fragment is closed: nothing
is spread in it, no fragment is open twice around any place of it, each fragment that has been
opened stands with what it selects, and the spreads that gave way to a `__typename` field are those
whose fragments were open around them. -/
theorem Fragment.inlined_closes (x : Inlining) (f : Fragment) :
    (∃ s ∈ f.selections, ∃ around name, x.Meets [] s around name ∧ name ∉ around
        ∧ Keyed.get? x.references name = none ∧ Keyed.get? x.fragments name = none
        ∧ f.inlined x = .error (.configuration (.noTypeFragment name)))
      ∨ ∃ es : List Expansion, es.map Expansion.before = f.selections
        ∧ f.inlined x = .ok { f with selections := es.map (Expansion.after x) }
        ∧ spreadNamesIn (es.map (Expansion.after x)) = []
        ∧ ∀ e ∈ es, ∀ around e', Stands [] e around e' →
            around.Nodup
              ∧ (∀ name directives inner, e' = .opened name directives inner →
                  name ∉ around ∧ ∃ g, x.find? name = some g
                    ∧ inner.map Expansion.before = g.selections)
              ∧ ∀ name directives, e' = .cut name directives → name ∈ around := by
  rw [Fragment.inlined]
  rcases inlineAll_explained x [] f.selections with
    ⟨es, hbefore, hafter, hes⟩ | ⟨s, hs, name, ⟨around, hmeets, hname, hf⟩, herror⟩
  · refine .inr ⟨es, hbefore, by rw [hafter]; rfl, ?_, fun e he around e' hstands => ?_⟩
    · rw [spreadNamesIn_eq_flatMap, List.flatMap_map]
      exact List.flatMap_eq_nil_iff.mpr fun e _ => e.spreadNames_after x
    · refine ⟨(hes e he).nodup List.nodup_nil hstands, ?_, ?_⟩
      · rintro name directives inner rfl
        exact (hes e he).opened hstands
      · rintro name directives rfl
        exact (hes e he).cut hstands
  · refine .inl ⟨s, hs, around, name, hmeets, hname, ?_, ?_, by rw [herror]; rfl⟩
    all_goals
      rw [find?] at hf
      split at hf
      · cases hf
      · assumption

end RemoteNodes
