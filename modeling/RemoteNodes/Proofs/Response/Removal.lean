import Mathlib.Tactic
import Mathlib.Logic.Relation
import RemoteNodes.Proofs.Document.Spreads
import RemoteNodes.Proofs.Response.Execution
/-!
What is collected once fragments are taken out of a document, with all their spreads.

* `field_mem_dropSpreadsIn`, `spread_mem_dropSpreadsIn`, `inline_mem_dropSpreadsIn`: the selections
  that are left of a set.
* `Execution.visits_of_removeFragments`, `Execution.Collects.of_removeFragments`: **nothing is
  collected afterwards that was not collected before**.
* `Execution.visits_removeFragments_or`: a set that is answered stays, unless one of the fragments
  leads to all that it spreads.
* `Execution.Covers`: a set as good as another one, and what it has for each of its selections.
-/

namespace RemoteNodes

open Relation

/-! ### The selections that are left -/

section Left

variable {names : List String} {ss inner : List Selection} {alias? condition? : Option String}
  {name : String} {arguments : List Argument} {directives : List Directive}
  {selections? : Option (List Selection)}

private lemma mem_dropSpreadsIn {s' : Selection} :
    s' ∈ dropSpreadsIn names ss ↔ ∃ s ∈ ss, s.dropSpreads? names = some s' := by
  rw [dropSpreadsIn_eq_filterMap, List.mem_filterMap]

private lemma dropSpreads?_field : (Selection.field alias? name arguments directives
      selections?).dropSpreads? names
    = some (.field alias? name arguments directives (selections?.map (dropSpreadsIn names))) := by
  cases selections? <;> rfl

/-- A field that is left has what is left of its set. -/
lemma field_mem_dropSpreadsIn :
    .field alias? name arguments directives selections? ∈ dropSpreadsIn names ss
      ↔ ∃ before?, before?.map (dropSpreadsIn names) = selections?
        ∧ .field alias? name arguments directives before? ∈ ss := by
  rw [mem_dropSpreadsIn]
  constructor
  · rintro ⟨s, hs, hleft⟩
    cases s with
    | field alias?' name' arguments' directives' before? =>
        rw [dropSpreads?_field] at hleft
        cases hleft
        exact ⟨before?, rfl, hs⟩
    | spread fragment _ =>
        rw [Selection.dropSpreads?] at hleft
        split at hleft <;> cases hleft
    | inline _ _ _ => cases hleft
  · rintro ⟨before?, rfl, hs⟩
    exact ⟨_, hs, dropSpreads?_field⟩

/-- A spread is left exactly if it is not one of the fragments. -/
lemma spread_mem_dropSpreadsIn :
    .spread name directives ∈ dropSpreadsIn names ss
      ↔ .spread name directives ∈ ss ∧ name ∉ names := by
  rw [mem_dropSpreadsIn]
  constructor
  · rintro ⟨s, hs, hleft⟩
    cases s with
    | field _ _ _ _ _ =>
        rw [dropSpreads?_field] at hleft
        cases hleft
    | spread fragment _ =>
        rw [Selection.dropSpreads?] at hleft
        split at hleft
        · cases hleft
        · rename_i hname
          cases hleft
          exact ⟨hs, by simpa using hname⟩
    | inline _ _ _ => cases hleft
  · rintro ⟨hs, hname⟩
    refine ⟨_, hs, ?_⟩
    rw [Selection.dropSpreads?, if_neg (by simpa using hname)]

/-- An inline fragment that is left has what is left of its set. -/
lemma inline_mem_dropSpreadsIn :
    .inline condition? directives inner ∈ dropSpreadsIn names ss
      ↔ ∃ before, dropSpreadsIn names before = inner
        ∧ .inline condition? directives before ∈ ss := by
  rw [mem_dropSpreadsIn]
  constructor
  · rintro ⟨s, hs, hleft⟩
    cases s with
    | field _ _ _ _ _ =>
        rw [dropSpreads?_field] at hleft
        cases hleft
    | spread fragment _ =>
        rw [Selection.dropSpreads?] at hleft
        split at hleft <;> cases hleft
    | inline _ _ before =>
        cases hleft
        exact ⟨before, rfl, hs⟩
  · rintro ⟨before, rfl, hs⟩
    exact ⟨_, hs, rfl⟩

end Left

/-- An operation without the spreads of some fragments. -/
def Operation.without (o : Operation) (names : List String) : Operation :=
  { o with selections := dropSpreadsIn names o.selections }

namespace Execution

variable {x : Execution} {schema : Schema} {document : Document} {o : Operation}
  {names : List String} {position : Position} {ss : List Selection}

/-! ### Answers without some fragments -/

/-- A set that is answered afterwards is what is left of one that was answered before. -/
theorem visits_of_removeFragments {ss' : List Selection}
    (h : x.Visits schema (document.removeFragments names) (o.without names) position ss') :
    ∃ ss, dropSpreadsIn names ss = ss' ∧ x.Visits schema document o position ss := by
  induction h with
  | operation => exact ⟨o.selections, rfl, .operation⟩
  | field _ hmem hadmits hobject ih =>
      obtain ⟨ss, rfl, hvisits⟩ := ih
      obtain ⟨before?, hbefore, hs⟩ := field_mem_dropSpreadsIn.mp hmem
      obtain ⟨before, rfl, rfl⟩ := Option.map_eq_some_iff.mp hbefore
      exact ⟨before, rfl, hvisits.field hs hadmits hobject⟩
  | inline _ hmem hadmits happlies ih =>
      obtain ⟨ss, rfl, hvisits⟩ := ih
      obtain ⟨before, rfl, hs⟩ := inline_mem_dropSpreadsIn.mp hmem
      exact ⟨before, rfl, hvisits.inline hs hadmits happlies⟩
  | spread _ hmem hadmits hf happlies ih =>
      obtain ⟨ss, rfl, hvisits⟩ := ih
      rw [Document.fragments_removeFragments] at hf
      obtain ⟨f, hbefore, rfl⟩ := List.mem_map.mp hf
      have hs := (spread_mem_dropSpreadsIn.mp hmem).1
      exact ⟨f.selections, rfl, hvisits.spread hs hadmits (List.mem_filter.mp hbefore).1 happlies⟩

/-- A field that is collected afterwards was collected before. -/
theorem Collects.of_removeFragments {field : ResponseField}
    (h : x.Collects schema (document.removeFragments names) (o.without names) position field) :
    x.Collects schema document o position field := by
  obtain ⟨ss', alias?, name, arguments, directives, selections?, hleft, hs, hadmits, hfield⟩ := h
  obtain ⟨ss, rfl, hvisits⟩ := visits_of_removeFragments hleft
  obtain ⟨before?, -, hs⟩ := field_mem_dropSpreadsIn.mp hs
  exact ⟨ss, alias?, name, arguments, directives, before?, hvisits, hs, hadmits, hfield⟩

/-- The fragment of an answered spread is still entered if it is none of those taken out. -/
lemma Visits.spread_removeFragments {f : Fragment} {directives : List Directive}
    (h : x.Visits schema (document.removeFragments names) (o.without names) position
      (dropSpreadsIn names ss))
    (hs : .spread f.name directives ∈ ss) (hname : f.name ∉ names) (hadmits : x.Admits directives)
    (hf : f ∈ document.fragments) (happlies : x.AppliesAt schema position f.condition) :
    x.Visits schema (document.removeFragments names) (o.without names) position
      (dropSpreadsIn names f.selections) := by
  have hleft : { f with selections := dropSpreadsIn names f.selections }
      ∈ (document.removeFragments names).fragments := by
    rw [Document.fragments_removeFragments]
    exact List.mem_map.mpr ⟨f, List.mem_filter.mpr ⟨hf, by simpa using hname⟩, rfl⟩
  exact Visits.spread (f := { f with selections := dropSpreadsIn names f.selections }) h
    (spread_mem_dropSpreadsIn.mpr ⟨hs, hname⟩) hadmits hleft happlies

/-- What is left of a set that is answered is still answered, unless it is answered by way of a
fragment that is taken out, which then leads to all that the set spreads. -/
theorem visits_removeFragments_or (names : List String)
    (h : x.Visits schema document o position ss) :
    x.Visits schema (document.removeFragments names) (o.without names) position
        (dropSpreadsIn names ss)
      ∨ ∀ next ∈ spreadNamesIn ss, ∃ name ∈ names, TransGen document.Spreads name next := by
  have hinner {s : Selection} {ss inner : List Selection} (hs : s ∈ ss)
      (hspreads : s.spreadNames = spreadNamesIn inner) : spreadNamesIn inner ⊆ spreadNamesIn ss :=
    fun next hnext => mem_spreadNamesIn.mpr ⟨s, hs, hspreads ▸ hnext⟩
  induction h with
  | operation => exact .inl .operation
  | field _ hmem hadmits hobject ih =>
      refine ih.imp (fun hvisits => ?_) fun hchain next hnext => ?_
      · exact hvisits.field (field_mem_dropSpreadsIn.mpr ⟨_, rfl, hmem⟩) hadmits hobject
      · exact hchain next (hinner hmem (by rw [Selection.spreadNames]) hnext)
  | inline _ hmem hadmits happlies ih =>
      refine ih.imp (fun hvisits => ?_) fun hchain next hnext => ?_
      · exact hvisits.inline (inline_mem_dropSpreadsIn.mpr ⟨_, rfl, hmem⟩) hadmits happlies
      · exact hchain next (hinner hmem (by rw [Selection.spreadNames]) hnext)
  | @spread _ ss f directives _ hmem hadmits hf happlies ih =>
      have hedge {next : String} (hnext : next ∈ spreadNamesIn f.selections) :
          document.Spreads f.name next := ⟨f, hf, rfl, hnext⟩
      by_cases hname : f.name ∈ names
      · exact .inr fun next hnext => ⟨f.name, hname, .single (hedge hnext)⟩
      · refine ih.imp (fun hvisits => ?_) fun hchain next hnext => ?_
        · exact hvisits.spread_removeFragments hmem hname hadmits hf happlies
        · have hspread : f.name ∈ spreadNamesIn ss :=
            mem_spreadNamesIn.mpr ⟨_, hmem, by rw [Selection.spreadNames]; simp⟩
          obtain ⟨name, hmem, hbefore⟩ := hchain f.name hspread
          exact ⟨name, hmem, hbefore.tail (hedge hnext)⟩

/-! ### Sets that cover others -/

/-- No spread that stands in selections, at any depth, is left out. -/
def AdmitsSpreads (x : Execution) (ss : List Selection) : Prop :=
  ∀ set ∈ ss :: setsIn ss, ∀ fragment directives, .spread fragment directives ∈ set →
    x.Admits directives

lemma AdmitsSpreads.of_mem {s : Selection} {inner : List Selection} (h : x.AdmitsSpreads ss)
    (hs : s ∈ ss) (hsets : s.sets = inner :: setsIn inner) : x.AdmitsSpreads inner :=
  fun set hset => h set (List.mem_cons_of_mem _ (mem_setsIn.mpr ⟨s, hs, hsets ▸ hset⟩))

/-- A set covers another one if it is the same, or if it includes the other and none of its spreads
is left out. -/
def Covers (x : Execution) (ss' ss : List Selection) : Prop :=
  ss' = ss ∨ (x.AdmitsSpreads ss' ∧ selectionsInclude ss' ss = true)

namespace Covers

variable {ss' inner : List Selection} {alias? condition? : Option String} {name : String}
  {arguments : List Argument} {directives : List Directive}

/-- For a field of the other set there is one with the same key in the response, whose set covers
its set. -/
lemma field {selections? : Option (List Selection)} (h : x.Covers ss' ss)
    (hs : .field alias? name arguments directives selections? ∈ ss)
    (hadmits : x.Admits directives) :
    ∃ arguments' directives' selections?',
      .field alias? name arguments' directives' selections?' ∈ ss'
        ∧ responseField alias? name arguments' = responseField alias? name arguments
        ∧ x.Admits directives'
        ∧ ∀ inner, selections? = some inner →
          ∃ inner', selections?' = some inner' ∧ x.Covers inner' inner := by
  rcases h with rfl | ⟨hspreads, hinclude⟩
  · exact ⟨arguments, directives, selections?, hs, rfl, hadmits,
      fun inner hinner => ⟨inner, hinner, .inl rfl⟩⟩
  obtain ⟨s, hs', hincludes⟩ := exists_includes_of_mem hinclude hs
  cases selections? with
  | none =>
      obtain ⟨arguments', directives', rfl, harguments, hdirectives⟩ :=
        Selection.exists_of_includes_leaf hincludes
      exact ⟨arguments', directives', none, hs', responseField_congr harguments,
        x.admits_congr hdirectives hadmits, fun _ h => nomatch h⟩
  | some inner =>
      obtain ⟨arguments', directives', inner', rfl, harguments, hdirectives, hinner⟩ :=
        Selection.exists_of_includes_composite hincludes
      refine ⟨arguments', directives', some inner', hs', responseField_congr harguments,
        x.admits_congr hdirectives hadmits, fun _ h => ⟨inner', rfl, ?_⟩⟩
      obtain rfl := Option.some.inj h
      exact .inr ⟨hspreads.of_mem hs' (by rw [Selection.sets]), hinner⟩

/-- For an inline fragment of the other set there is one with the same condition, whose set covers
its set. -/
lemma inline (h : x.Covers ss' ss) (hs : .inline condition? directives inner ∈ ss)
    (hadmits : x.Admits directives) :
    ∃ directives' inner', .inline condition? directives' inner' ∈ ss' ∧ x.Admits directives'
      ∧ x.Covers inner' inner := by
  rcases h with rfl | ⟨hspreads, hinclude⟩
  · exact ⟨directives, inner, hs, hadmits, .inl rfl⟩
  · obtain ⟨s, hs', hincludes⟩ := exists_includes_of_mem hinclude hs
    obtain ⟨directives', inner', rfl, hdirectives, hinner⟩ :=
      Selection.exists_of_includes_inline hincludes
    exact ⟨directives', inner', hs', x.admits_congr hdirectives hadmits,
      .inr ⟨hspreads.of_mem hs' (by rw [Selection.sets]), hinner⟩⟩

/-- For a spread of the other set there is one of the same fragment. -/
lemma spread (h : x.Covers ss' ss) (hs : .spread name directives ∈ ss)
    (hadmits : x.Admits directives) :
    ∃ directives', .spread name directives' ∈ ss' ∧ x.Admits directives' := by
  rcases h with rfl | ⟨hspreads, hinclude⟩
  · exact ⟨directives, hs, hadmits⟩
  · obtain ⟨s, hs', hincludes⟩ := exists_includes_of_mem hinclude hs
    obtain ⟨directives', rfl⟩ := Selection.exists_of_includes_spread hincludes
    exact ⟨directives', hs', hspreads _ List.mem_cons_self _ _ hs'⟩

end Covers

end Execution

end RemoteNodes
