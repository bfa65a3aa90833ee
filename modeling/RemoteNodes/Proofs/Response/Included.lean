import Mathlib.Tactic
import RemoteNodes.Proofs.Response.Lossless
/-!
What the inclusion of selection sets says about responses. Inclusion compares directives, except
those of spreads: a set can include another one whose spreads are under other conditions.

* `Compared`: the sets that are compared when the inclusion of two sets is decided.
* `Execution.Misses`: the objects for which a spread of a compared set is entered, and no spread of
  the same fragment is in the set that it is compared with.
* `Execution.misses_or_visits`: what is answered of an included set is answered of the other set by
  one that includes it, except for objects under one that is missed.
* `selectionSetIncludes_collects`: **an included set collects nothing beyond the other one, except
  there**; `selectionSetIncludes_misses`: a field that only the included set collects.
-/

namespace RemoteNodes

/-- The query that makes the selections of a set. -/
def queryOf (selections? : Option (List Selection)) : Operation where
  kind := .query
  name? := none
  variableDefinitions := []
  directives := []
  selections := selections?.getD []

/-- The selections of a set that another one includes are included in those of the other. -/
lemma selectionsInclude_of_selectionSetIncludes {full? part? : Option (List Selection)}
    (h : selectionSetIncludes full? part? = true) :
    selectionsInclude (full?.getD []) (part?.getD []) = true := by
  cases full? <;> cases part?
  · rfl
  · cases h
  · cases h
  · exact h

/-- The sets that are compared to decide whether one set includes another: these two, and for two
compared sets the sets of a field or an inline fragment of the second and of one that includes it in
the first. -/
inductive Compared (full part : List Selection) : List Selection → List Selection → Prop where
  | start : Compared full part full part
  | field {ss ts ss' ts' : List Selection} {alias? : Option String} {name : String}
      {arguments arguments' : List Argument} {directives directives' : List Directive} :
      Compared full part ss ts → .field alias? name arguments directives (some ss') ∈ ss →
      .field alias? name arguments' directives' (some ts') ∈ ts →
      Selection.includes (.field alias? name arguments directives (some ss'))
        (.field alias? name arguments' directives' (some ts')) = true →
      Compared full part ss' ts'
  | inline {ss ts ss' ts' : List Selection} {condition? : Option String}
      {directives directives' : List Directive} :
      Compared full part ss ts → .inline condition? directives ss' ∈ ss →
      .inline condition? directives' ts' ∈ ts →
      Selection.includes (.inline condition? directives ss') (.inline condition? directives' ts')
        = true →
      Compared full part ss' ts'

/-- Compared sets include each other in the same order as the sets that they stand in. -/
lemma Compared.includes {full part ss ts : List Selection} (h : Compared full part ss ts)
    (hinclude : selectionsInclude full part = true) : selectionsInclude ss ts = true := by
  cases h with
  | start => exact hinclude
  | field _ _ _ hincludes =>
      obtain ⟨_, _, _, heq, -, -, hinner⟩ := Selection.exists_of_includes_composite hincludes
      cases heq
      exact hinner
  | inline _ _ _ hincludes =>
      obtain ⟨_, _, heq, -, hinner⟩ := Selection.exists_of_includes_inline hincludes
      cases heq
      exact hinner

namespace Execution

variable (x : Execution) (schema : Schema) (document : Document)
  (full? part? : Option (List Selection))

/-- A fragment is entered for an object by a spread of a compared set, and all spreads of it are
left out in the set that this one is compared with. -/
def Misses (position : Position) : Prop :=
  ∃ ss ts directives f, Compared (full?.getD []) (part?.getD []) ss ts
    ∧ x.Visits schema document (queryOf part?) position ts ∧ .spread f.name directives ∈ ts
    ∧ x.Admits directives ∧ f ∈ document.fragments ∧ x.AppliesAt schema position f.condition
    ∧ ∀ directives', .spread f.name directives' ∈ ss → ¬ x.Admits directives'

variable {x schema document full? part?} {position : Position} {ts : List Selection}

/-- A set that is answered for an object on behalf of an included set has a counterpart, the same
set or one that it is compared with, that is answered on behalf of the other set, unless the object
is under one that is missed. -/
theorem misses_or_visits (hincludes : selectionSetIncludes full? part? = true)
    (h : x.Visits schema document (queryOf part?) position ts) :
    (∃ above, above <+: position ∧ x.Misses schema document full? part? above)
      ∨ ∃ ss, x.Visits schema document (queryOf full?) position ss
        ∧ (ss = ts ∨ Compared (full?.getD []) (part?.getD []) ss ts) := by
  have hinclude := selectionsInclude_of_selectionSetIncludes hincludes
  induction h with
  | operation => exact .inr ⟨_, .operation, .inr .start⟩
  | @field position ts inner alias? name arguments directives items _ hmem hadmits hobject ih =>
      rcases ih with ⟨above, habove, hmisses⟩ | ⟨ss, hvisits, rfl | hcompared⟩
      · exact .inl ⟨above, habove.trans (List.prefix_append _ _), hmisses⟩
      · exact .inr ⟨inner, hvisits.field hmem hadmits hobject, .inl rfl⟩
      · obtain ⟨s, hs, hst⟩ := exists_includes_of_mem (hcompared.includes hinclude) hmem
        obtain ⟨arguments', directives', inner', rfl, harguments, hdirectives, -⟩ :=
          Selection.exists_of_includes_composite hst
        rw [← responseField_congr harguments] at hobject ⊢
        exact .inr ⟨inner', hvisits.field hs (x.admits_congr hdirectives hadmits) hobject,
          .inr (hcompared.field hs hmem hst)⟩
  | @inline position ts inner condition? directives _ hmem hadmits happlies ih =>
      rcases ih with hmisses | ⟨ss, hvisits, rfl | hcompared⟩
      · exact .inl hmisses
      · exact .inr ⟨inner, hvisits.inline hmem hadmits happlies, .inl rfl⟩
      · obtain ⟨s, hs, hst⟩ := exists_includes_of_mem (hcompared.includes hinclude) hmem
        obtain ⟨directives', inner', rfl, hdirectives, -⟩ :=
          Selection.exists_of_includes_inline hst
        exact .inr ⟨inner', hvisits.inline hs (x.admits_congr hdirectives hadmits) happlies,
          .inr (hcompared.inline hs hmem hst)⟩
  | @spread position ts f directives hbefore hmem hadmits hf happlies ih =>
      rcases ih with hmisses | ⟨ss, hvisits, rfl | hcompared⟩
      · exact .inl hmisses
      · exact .inr ⟨f.selections, hvisits.spread hmem hadmits hf happlies, .inl rfl⟩
      · -- only here the two sets can differ: each spread of the fragment has its own directives
        by_cases hentered : ∃ directives', .spread f.name directives' ∈ ss ∧ x.Admits directives'
        · obtain ⟨directives', hs, hadmits'⟩ := hentered
          exact .inr ⟨f.selections, hvisits.spread hs hadmits' hf happlies, .inl rfl⟩
        · refine .inl ⟨position, List.prefix_rfl, ss, ts, directives, f, hcompared, hbefore, hmem,
            hadmits, hf, happlies, fun directives' hs hadmits' => ?_⟩
          exact hentered ⟨directives', hs, hadmits'⟩

end Execution

/-- A field that a set includes has a counterpart in the set, which is collected as the same field
of the response. -/
lemma exists_field_of_include {ss ts : List Selection} {alias? : Option String} {name : String}
    {arguments : List Argument} {directives : List Directive}
    {selections? : Option (List Selection)} (h : selectionsInclude ss ts = true)
    (hmem : .field alias? name arguments directives selections? ∈ ts) :
    ∃ arguments' directives' selections?',
      .field alias? name arguments' directives' selections?' ∈ ss
        ∧ responseField alias? name arguments' = responseField alias? name arguments
        ∧ sameDirectives directives' directives = true := by
  obtain ⟨s, hs, hincludes⟩ := exists_includes_of_mem h hmem
  cases selections? with
  | none =>
      obtain ⟨arguments', directives', rfl, harguments, hdirectives⟩ :=
        Selection.exists_of_includes_leaf hincludes
      exact ⟨arguments', directives', none, hs, responseField_congr harguments, hdirectives⟩
  | some inner =>
      obtain ⟨arguments', directives', inner', rfl, harguments, hdirectives, -⟩ :=
        Selection.exists_of_includes_composite hincludes
      exact ⟨arguments', directives', some inner', hs, responseField_congr harguments,
        hdirectives⟩

/-- Inclusion of selection sets, for all definitions of the fragments that they spread, all values
of Boolean variables and all objects of a response: every field that the included set collects for
an object is collected by the other set as well, unless at or above the object a fragment is entered
by a spread in the included set and all its spreads are left out in the set that this one is
compared with, since directives of spreads are not compared. -/
theorem selectionSetIncludes_collects {full? part? : Option (List Selection)}
    (h : selectionSetIncludes full? part? = true) (schema : Schema) (document : Document)
    (x : Execution) (position : Position) (field : ResponseField)
    (hkept : ∀ above, above <+: position → ¬ x.Misses schema document full? part? above)
    (hcollects : x.Collects schema document (queryOf part?) position field) :
    x.Collects schema document (queryOf full?) position field := by
  obtain ⟨ts, alias?, name, arguments, directives, selections?, hvisits, hmem, hadmits, rfl⟩ :=
    hcollects
  have hinclude := selectionsInclude_of_selectionSetIncludes h
  rcases Execution.misses_or_visits h hvisits with
    ⟨above, habove, hmisses⟩ | ⟨ss, hvisits', rfl | hcompared⟩
  · exact absurd hmisses (hkept above habove)
  · exact ⟨ss, alias?, name, arguments, directives, selections?, hvisits', hmem, hadmits, rfl⟩
  · obtain ⟨arguments', directives', selections?', hs, hfield, hdirectives⟩ :=
      exists_field_of_include (hcompared.includes hinclude) hmem
    exact ⟨ss, alias?, name, arguments', directives', selections?', hvisits', hs,
      x.admits_congr hdirectives hadmits, hfield⟩

/-! ### Conditions of directives -/

open Layout in
/-- How a directive with a condition is written. -/
lemma Directive.text_conditional (name : String) (condition : Literal) :
    (conditional name condition).text
      = "@" ++ name ++ ("(" ++ ("if: " ++ condition.text) ++ ")") := by
  have hargument : Argument.text ⟨"if", condition⟩ = "if: " ++ condition.text := rfl
  have hne : "if: " ++ condition.text ≠ "" := by simp
  simp only [conditional, Directive.text, List.map_cons, List.map_nil, hargument, join, wrap]
  rw [List.filter_cons_of_pos (by simp), List.filter_nil, String.intercalate_singleton,
    if_neg (by simp)]

namespace Execution

variable (x : Execution) {condition condition' : Literal} {value value' : Bool}

/-- Conditions that are written alike have the same truth value. -/
lemma truth_eq_of_text (h : x.truth condition = some value) (h' : x.truth condition' = some value')
    (htext : condition.text = condition'.text) : value = value' := by
  have hcases {c : Literal} {v : Bool} (h : x.truth c = some v) :
      (∃ n, c = .variable n ∧ x.truths n = v) ∨ c = .boolean v := by
    match c, h with
    | .variable n, h => exact .inl ⟨n, rfl, Option.some.inj h⟩
    | .boolean b, h => exact .inr (by rw [Option.some.inj h])
  have hvariable (n : String) (b : Bool) :
      (Literal.variable n).text ≠ (Literal.boolean b).text := by
    cases b <;> simp [Literal.text, ← String.toList_inj]
  obtain ⟨n, rfl, hn⟩ | rfl := hcases h <;> obtain ⟨m, rfl, hm⟩ | rfl := hcases h'
  · have hname : n = m := by simpa [Literal.text, ← String.toList_inj] using htext
    rw [← hn, ← hm, hname]
  · exact absurd htext (hvariable n value')
  · exact absurd htext.symm (hvariable m value)
  · by_contra hne
    revert htext
    cases value <;> cases value' <;> first | contradiction | decide

/-- A `skip` leaves a selection out exactly if its condition holds. -/
lemma blocks_skip_iff (h : x.truth condition = some value) :
    x.Blocks (.conditional "skip" condition) ↔ value = true := by
  constructor
  · rintro ⟨condition', ⟨htext, htruth⟩ | ⟨htext, -⟩⟩
    · refine x.truth_eq_of_text h htruth ?_
      simpa [Directive.text_conditional, ← String.toList_inj] using htext
    · simp [Directive.text_conditional, ← String.toList_inj] at htext
  · rintro rfl
    exact ⟨condition, .inl ⟨rfl, h⟩⟩

/-- An `include` leaves a selection out exactly if its condition does not hold. -/
lemma blocks_include_iff (h : x.truth condition = some value) :
    x.Blocks (.conditional "include" condition) ↔ value = false := by
  constructor
  · rintro ⟨condition', ⟨htext, -⟩ | ⟨htext, htruth⟩⟩
    · simp [Directive.text_conditional, ← String.toList_inj] at htext
    · refine x.truth_eq_of_text h htruth ?_
      simpa [Directive.text_conditional, ← String.toList_inj] using htext
  · rintro rfl
    exact ⟨condition, .inr ⟨rfl, h⟩⟩

end Execution

/-! ### A field that only the included set collects -/

/-- The selections that spread the ID fragment of a node under a condition. -/
def nodeSpreading (directive condition : String) : List Selection :=
  [.plain "foo" (some [.spread "FooId" [.conditional directive (.variable condition)]])]

/-- The response with the node, for values of the variables. -/
def nodeResponseFor (truths : String → Bool) : Execution := { nodeResponse with truths }

lemma collects_nodeSpreading {truths : String → Bool} {directive condition : String}
    (h : (nodeResponseFor truths).Admits [.conditional directive (.variable condition)]) :
    (nodeResponseFor truths).Collects nodeSchema nodeDocument
      (queryOf (some (nodeSpreading directive condition))) nodePosition
      (responseField none "id" []) := by
  have hadmits := (nodeResponseFor truths).admits_nil
  have hnode : (nodeResponseFor truths).Visits nodeSchema nodeDocument
      (queryOf (some (nodeSpreading directive condition))) nodePosition
      [.spread "FooId" [.conditional directive (.variable condition)]] :=
    .field .operation List.mem_cons_self hadmits rfl
  have hid := hnode.spread (f := fooIdFragment) List.mem_cons_self h
    (by simp [nodeDocument, Document.fragments, Definition.fragment?]) ⟨"Foo", rfl, .inl rfl⟩
  exact ⟨_, none, "id", [], [], none, hid, List.mem_cons_self, hadmits, rfl⟩

/-- What is answered if the condition does not hold. -/
lemma visits_nodeSpreading {truths : String → Bool} {directive condition : String}
    {position : Position} {ss : List Selection}
    (hblocks : ¬ (nodeResponseFor truths).Admits [.conditional directive (.variable condition)])
    (h : (nodeResponseFor truths).Visits nodeSchema nodeDocument
      (queryOf (some (nodeSpreading directive condition))) position ss) :
    ss = nodeSpreading directive condition
      ∨ ss = [.spread "FooId" [.conditional directive (.variable condition)]] := by
  induction h with
  | operation => exact .inl rfl
  | field _ hmem _ _ ih =>
      rcases ih with rfl | rfl
      · cases List.mem_singleton.mp hmem
        exact .inr rfl
      · cases List.mem_singleton.mp hmem
  | inline _ hmem _ _ ih => rcases ih with rfl | rfl <;> cases List.mem_singleton.mp hmem
  | spread _ hmem hadmits _ _ ih =>
      rcases ih with rfl | rfl
      · cases List.mem_singleton.mp hmem
      · obtain ⟨-, rfl⟩ := Selection.spread.inj (List.mem_singleton.mp hmem)
        exact absurd hadmits hblocks

lemma includes_nodeSpreading (directive condition directive' condition' : String) :
    selectionSetIncludes (some (nodeSpreading directive condition))
      (some (nodeSpreading directive' condition')) = true := rfl

/-- The sets that are compared are the two sets and those of the node. -/
lemma compared_nodeSpreading {directive condition directive' condition' : String}
    {ss ts : List Selection}
    (h : Compared (nodeSpreading directive condition) (nodeSpreading directive' condition') ss ts) :
    (ss = nodeSpreading directive condition ∧ ts = nodeSpreading directive' condition')
      ∨ (ss = [.spread "FooId" [.conditional directive (.variable condition)]]
        ∧ ts = [.spread "FooId" [.conditional directive' (.variable condition')]]) := by
  induction h with
  | start => exact .inl ⟨rfl, rfl⟩
  | field _ hs ht _ ih =>
      rcases ih with ⟨rfl, rfl⟩ | ⟨rfl, rfl⟩
      · cases List.mem_singleton.mp hs
        cases List.mem_singleton.mp ht
        exact .inr ⟨rfl, rfl⟩
      · cases List.mem_singleton.mp hs
  | inline _ hs _ _ ih => rcases ih with ⟨rfl, rfl⟩ | ⟨rfl, rfl⟩ <;> cases List.mem_singleton.mp hs

/-- Definitions of fragments, values of variables and a response that the schema allows: one set
includes another one, and a field is collected by the included set and not by the other. -/
theorem selectionSetIncludes_misses : ∃ full part truths position field,
    selectionSetIncludes (some full) (some part) = true
      ∧ (nodeResponseFor truths).Allowed nodeSchema .query
      ∧ (nodeResponseFor truths).Collects nodeSchema nodeDocument (queryOf (some part)) position
        field
      ∧ ¬ (nodeResponseFor truths).Collects nodeSchema nodeDocument (queryOf (some full)) position
        field := by
  refine ⟨nodeSpreading "include" "more", nodeSpreading "skip" "more", fun _ => false, nodePosition,
    responseField none "id" [], rfl, ⟨allowed_nodeResponse.root, allowed_nodeResponse.inner⟩,
    collects_nodeSpreading ?_, ?_⟩
  · rintro d hd
    rw [List.mem_singleton.mp hd, Execution.blocks_skip_iff _ rfl]
    decide
  · rintro ⟨ss, alias?, name, arguments, directives, selections?, hvisits, hs, -, hfield⟩
    have hname : name = "id" := congrArg ResponseField.name hfield
    have hblocks : ¬ (nodeResponseFor fun _ => false).Admits
        [.conditional "include" (.variable "more")] := fun hadmits =>
      hadmits _ List.mem_cons_self ((Execution.blocks_include_iff _ rfl).mpr rfl)
    rcases visits_nodeSpreading hblocks hvisits with rfl | rfl
    · cases List.mem_singleton.mp hs
      exact absurd hname (by decide)
    · cases List.mem_singleton.mp hs

/-- With one condition that holds and one that does not, nothing is missed, and the field that the
included set collects is collected by the other one. -/
theorem selectionSetIncludes_collects_node :
    (∀ above, above <+: nodePosition →
      ¬ (nodeResponseFor (· == "more")).Misses nodeSchema nodeDocument
        (some (nodeSpreading "include" "more")) (some (nodeSpreading "skip" "less")) above)
      ∧ (nodeResponseFor (· == "more")).Collects nodeSchema nodeDocument
        (queryOf (some (nodeSpreading "include" "more"))) nodePosition
        (responseField none "id" []) := by
  have hmore : (nodeResponseFor (· == "more")).Admits
      [.conditional "include" (.variable "more")] := by
    intro d hd
    rw [List.mem_singleton.mp hd, Execution.blocks_include_iff _ rfl]
    decide
  have hless : (nodeResponseFor (· == "more")).Admits
      [.conditional "skip" (.variable "less")] := by
    intro d hd
    rw [List.mem_singleton.mp hd, Execution.blocks_skip_iff _ rfl]
    decide
  have hkept : ∀ above, above <+: nodePosition →
      ¬ (nodeResponseFor (· == "more")).Misses nodeSchema nodeDocument
        (some (nodeSpreading "include" "more")) (some (nodeSpreading "skip" "less")) above := by
    rintro above - ⟨ss, ts, directives, f, hcompared, -, hmem, -, -, -, hleft⟩
    rcases compared_nodeSpreading hcompared with ⟨-, rfl⟩ | ⟨rfl, rfl⟩
    · cases List.mem_singleton.mp hmem
    · obtain ⟨hname, -⟩ := Selection.spread.inj (List.mem_singleton.mp hmem)
      exact hleft _ (by rw [hname]; exact List.mem_cons_self) hmore
  exact ⟨hkept, selectionSetIncludes_collects (includes_nodeSpreading _ _ _ _) _ _ _ _ _ hkept
    (collects_nodeSpreading hless)⟩

end RemoteNodes
