import Mathlib.Tactic
import RemoteNodes.Proofs.Document.Compilation
import RemoteNodes.Proofs.Document.Duplicates
import RemoteNodes.Proofs.Response.Removal
/-!
Whether anything is lost when the fragments that repeat the ID fragment are taken out. Each of them
selects nothing beyond the ID fragment, so that nothing is lost where the ID fragment is entered as
well; but it need not be.

* `Deduplication.Loses`: the objects for which a repetition is entered and the ID fragment is not.
* `Deduplication.visits_idFragment`: where the ID fragment is entered, it is still answered.
* `Deduplication.loses_or_covers`: a set that is answered is still covered, except for objects under
  one for which something is lost.
* `removeIdDuplicates_collects`: **nothing new is collected, and all that was collected still is,
  except there**; `removeIdDuplicates_loses`: a field that is lost.
-/

namespace RemoteNodes

open Relation

namespace Document.Deduplication

variable {schema : Schema} {type idFragment : String} {document result : Document}
  (d : Deduplication schema type idFragment document result)
  {x : Execution} {o : Operation} {position : Position} {ss : List Selection}

/-- A repetition of the ID fragment is entered for an object, and the ID fragment is not. -/
def Loses (x : Execution) (o : Operation) (position : Position) : Prop :=
  (∃ name ∈ d.duplicates, x.Enters schema document o position name)
    ∧ ¬ x.Enters schema document o position idFragment

variable (hnodup : document.fragmentNames.Nodup)
  (hcycle : ¬ TransGen document.Spreads idFragment idFragment)
include hnodup hcycle

/-- Where the ID fragment is entered it is still answered: no repetition leads to it, so it is not
entered by way of one. -/
lemma visits_idFragment (h : x.Enters schema document o position idFragment) :
    x.Visits schema (document.removeFragments d.duplicates) (o.without d.duplicates) position
      (dropSpreadsIn d.duplicates d.found.selections) := by
  obtain ⟨ss, directives, f, hvisits, hs, hadmits, hf, hname, happlies⟩ := h
  obtain rfl : f = d.found :=
    List.inj_on_of_nodup_map hnodup hf d.found_mem (hname.trans d.name_found.symm)
  rw [← hname] at hs
  rcases Execution.visits_removeFragments_or d.duplicates hvisits with hleft | hchain
  · refine hleft.spread_removeFragments hs ?_ hadmits hf happlies
    rw [hname]
    exact d.idFragment_not_mem hnodup
  · have hspread : d.found.name ∈ spreadNamesIn ss :=
      mem_spreadNamesIn.mpr ⟨_, hs, by rw [Selection.spreadNames]; exact List.mem_singleton_self _⟩
    obtain ⟨name, hmem, hleads⟩ := hchain _ hspread
    rw [hname] at hleads
    exact absurd hmem (d.not_mem_of_chain hnodup hcycle hleads.to_reflTransGen)

/-- What is answered for an object is covered by something that is still answered, unless the object
is under one for which something is lost. -/
theorem loses_or_covers (hspreads : x.AdmitsSpreads d.found.selections)
    (h : x.Visits schema document o position ss) :
    (∃ above, above <+: position ∧ d.Loses x o above)
      ∨ ∃ ss', x.Covers ss' ss ∧ x.Visits schema (document.removeFragments d.duplicates)
        (o.without d.duplicates) position (dropSpreadsIn d.duplicates ss') := by
  induction h with
  | operation => exact .inr ⟨o.selections, .inl rfl, .operation⟩
  | @field position ss inner alias? name arguments directives items _ hmem hadmits hobject ih =>
      rcases ih with ⟨above, habove, hloses⟩ | ⟨ss', hcovers, hvisits⟩
      · exact .inl ⟨above, habove.trans (List.prefix_append _ _), hloses⟩
      · obtain ⟨arguments', directives', selections?, hs, hfield, hadmits', hinner⟩ :=
          hcovers.field hmem hadmits
        obtain ⟨inner', rfl, hcovers'⟩ := hinner inner rfl
        rw [← hfield] at hobject ⊢
        exact .inr ⟨inner', hcovers',
          hvisits.field (field_mem_dropSpreadsIn.mpr ⟨_, rfl, hs⟩) hadmits' hobject⟩
  | inline _ hmem hadmits happlies ih =>
      refine ih.imp_right ?_
      rintro ⟨ss', hcovers, hvisits⟩
      obtain ⟨directives', inner', hs, hadmits', hcovers'⟩ := hcovers.inline hmem hadmits
      exact ⟨inner', hcovers',
        hvisits.inline (inline_mem_dropSpreadsIn.mpr ⟨_, rfl, hs⟩) hadmits' happlies⟩
  | @spread position ss f directives hbefore hmem hadmits hf happlies ih =>
      rcases ih with hloses | ⟨ss', hcovers, hvisits⟩
      · exact .inl hloses
      by_cases hname : f.name ∈ d.duplicates
      · -- the fragment is taken out, and the ID fragment stands in for it where it is entered
        by_cases hid : x.Enters schema document o position idFragment
        · obtain ⟨-, -, hinclude⟩ := d.includes_of_mem hnodup hf hname
          exact .inr ⟨d.found.selections, .inr ⟨hspreads, hinclude⟩,
            d.visits_idFragment hnodup hcycle hid⟩
        · have henters : x.Enters schema document o position f.name :=
            ⟨ss, directives, f, hbefore, hmem, hadmits, hf, rfl, happlies⟩
          exact .inl ⟨position, List.prefix_rfl, ⟨f.name, hname, henters⟩, hid⟩
      · obtain ⟨directives', hs, hadmits'⟩ := hcovers.spread hmem hadmits
        exact .inr ⟨f.selections, .inl rfl,
          hvisits.spread_removeFragments hs hname hadmits' hf happlies⟩

/-- A field that was collected still is, unless its object is under one for which something is
lost. -/
lemma loses_or_collects {field : ResponseField} (hspreads : x.AdmitsSpreads d.found.selections)
    (h : x.Collects schema document o position field) :
    (∃ above, above <+: position ∧ d.Loses x o above)
      ∨ x.Collects schema (document.removeFragments d.duplicates) (o.without d.duplicates)
        position field := by
  obtain ⟨ss, alias?, name, arguments, directives, selections?, hvisits, hs, hadmits, rfl⟩ := h
  refine (d.loses_or_covers hnodup hcycle hspreads hvisits).imp_right ?_
  rintro ⟨ss', hcovers, hleft⟩
  obtain ⟨arguments', directives', selections?', hs', hfield, hadmits', -⟩ :=
    hcovers.field hs hadmits
  exact ⟨_, alias?, name, arguments', directives', _, hleft,
    field_mem_dropSpreadsIn.mpr ⟨_, rfl, hs'⟩, hadmits', hfield⟩

end Document.Deduplication

/-- Taking out the fragments that repeat the ID fragment, from a document of fragments with distinct
names in which the ID fragment does not lead back to itself. Operations keep their places, and none
of them collects anything that it did not collect before. It still collects every field that it
collected before, except for objects at or under one for which a fragment that is taken out is
entered and the ID fragment is not; or if the execution leaves out a spread that stands in the ID
fragment, since directives of spreads are not compared. -/
theorem removeIdDuplicates_collects {schema : Schema} {type idFragment : String}
    {document result : Document}
    (h : document.removeIdDuplicates schema type idFragment = .ok result)
    (hnodup : document.fragmentNames.Nodup)
    (hcycle : ¬ TransGen document.Spreads idFragment idFragment) :
    ∃ d : Document.Deduplication schema type idFragment document result,
      List.Forall₂ (fun o o' => ∀ (x : Execution) (position : Position) (field : ResponseField),
          (x.Collects schema result o' position field → x.Collects schema document o position field)
          ∧ (x.AdmitsSpreads d.found.selections → x.Collects schema document o position field →
              (∀ above, above <+: position → ¬ d.Loses x o above) →
              x.Collects schema result o' position field))
        document.operations result.operations := by
  obtain ⟨d⟩ := Document.exists_deduplication h
  refine ⟨d, ?_⟩
  have hoperations : result.operations = document.operations.map (·.without d.duplicates) :=
    (congrArg Document.operations d.left_eq.symm).trans (Document.operations_removeFragments _)
  rw [hoperations, List.forall₂_map_right_iff, List.forall₂_same]
  intro o _ x position field
  have hcollects : x.Collects schema result (o.without d.duplicates) position field
      ↔ x.Collects schema (document.removeFragments d.duplicates) (o.without d.duplicates)
        position field :=
    iff_of_eq (congrArg (x.Collects schema · _ position field) d.left_eq.symm)
  rw [hcollects]
  refine ⟨fun hafter => hafter.of_removeFragments, fun hspreads hbefore hkept => ?_⟩
  refine (d.loses_or_collects hnodup hcycle hspreads hbefore).resolve_left ?_
  rintro ⟨above, habove, hloses⟩
  exact hkept above habove hloses

/-! ### A field that is lost -/

/-- A schema with one type that can be listed and fetched alone. -/
def nodeSchema : Schema where
  types := [⟨"ID", .scalar⟩, ⟨"String", .scalar⟩,
    ⟨"Foo", .object [] [⟨"id", .named "ID", []⟩, ⟨"name", .named "String", []⟩]⟩,
    ⟨"Query", .object [] [⟨"allFoo", .list (.named "Foo"), []⟩, ⟨"foo", .named "Foo", []⟩]⟩]
  directives := []
  query? := some "Query"

/-- An operation that makes selections on one node. -/
def nodeOperation (selections : List Selection) : Operation where
  kind := .query
  name? := some "NODE_Foo"
  variableDefinitions := []
  directives := []
  selections := [.plain "foo" (some selections)]

/-- A document whose second operation spreads a fragment that repeats the ID fragment, but not the
ID fragment. -/
def nodeDocument : Document := [
  .operation (fooOperation [.spread "FooId" []]),
  .operation (nodeOperation [.plain "name", .spread "Key" []]),
  .fragment fooIdFragment,
  .fragment { fooIdFragment with name := "Key" }]

/-- The document without that fragment. -/
def nodeDocumentLeft : Document := [
  .operation (fooOperation [.spread "FooId" []]),
  .operation (nodeOperation [.plain "name"]),
  .fragment fooIdFragment]

/-- Where the node is in the response. -/
def nodePosition : Position := [(responseField none "foo" [], [])]

/-- A response with the node. -/
def nodeResponse : Execution where
  truths := fun _ => true
  objects := fun position =>
    if position = [] then some "Query" else if position = nodePosition then some "Foo" else none

lemma removeIdDuplicates_node :
    nodeDocument.removeIdDuplicates nodeSchema "Foo" "FooId" = .ok nodeDocumentLeft := by
  cbv

lemma acyclic_nodeDocument : nodeDocument.Acyclic := by
  have hspreads : ∀ f ∈ nodeDocument.fragments, spreadNamesIn f.selections = [] := by decide
  refine Document.acyclic_of_rank (fun _ => 0) ?_
  rintro name next ⟨f, hf, rfl, hnext⟩
  rw [hspreads f hf] at hnext
  cases hnext

lemma allowed_nodeResponse : nodeResponse.Allowed nodeSchema .query where
  root := rfl
  inner := by
    intro position field items object hobject
    have hposition : position ++ [(field, items)] = nodePosition := by
      by_contra h
      simp [nodeResponse, h] at hobject
    obtain ⟨rfl, hlast⟩ | ⟨-, hlast⟩ := List.append_eq_singleton_iff.mp hposition
    · obtain ⟨rfl, rfl⟩ := Prod.mk.inj (List.singleton_inj.mp hlast)
      obtain rfl : object = "Foo" := (Option.some.inj hobject).symm
      exact ⟨"Query", _, _, rfl, rfl, rfl, .inl rfl, _, rfl, rfl⟩
    · cases hlast

/-- The ID of the node is collected before. -/
lemma collects_nodeDocument :
    nodeResponse.Collects nodeSchema nodeDocument (nodeOperation [.plain "name", .spread "Key" []])
      nodePosition (responseField none "id" []) := by
  have hadmits := nodeResponse.admits_nil
  have hnode : nodeResponse.Visits nodeSchema nodeDocument
      (nodeOperation [.plain "name", .spread "Key" []]) nodePosition
      [.plain "name", .spread "Key" []] :=
    .field .operation List.mem_cons_self hadmits rfl
  have hspread : Selection.spread "Key" [] ∈ [.plain "name", .spread "Key" []] :=
    List.mem_cons_of_mem _ List.mem_cons_self
  have hkey := hnode.spread (f := { fooIdFragment with name := "Key" }) hspread hadmits
    (by simp [nodeDocument, Document.fragments, Definition.fragment?]) ⟨"Foo", rfl, .inl rfl⟩
  exact ⟨_, none, "id", [], [], none, hkey, List.mem_cons_self, hadmits, rfl⟩

/-- Of the node nothing but its name is answered afterwards. -/
lemma visits_nodeDocumentLeft {position : Position} {ss : List Selection}
    (h : nodeResponse.Visits nodeSchema nodeDocumentLeft (nodeOperation [.plain "name"])
      position ss) :
    ss = [.plain "foo" (some [.plain "name"])] ∨ ss = [.plain "name"] := by
  induction h with
  | operation => exact .inl rfl
  | field _ hmem _ _ ih =>
      rcases ih with rfl | rfl
      · cases List.mem_singleton.mp hmem
        exact .inr rfl
      · cases List.mem_singleton.mp hmem
  | inline _ hmem _ _ ih => rcases ih with rfl | rfl <;> cases List.mem_singleton.mp hmem
  | spread _ hmem _ _ _ ih => rcases ih with rfl | rfl <;> cases List.mem_singleton.mp hmem

lemma not_collects_nodeDocumentLeft : ¬ nodeResponse.Collects nodeSchema nodeDocumentLeft
    (nodeOperation [.plain "name"]) nodePosition (responseField none "id" []) := by
  rintro ⟨ss, alias?, name, arguments, directives, selections?, hvisits, hs, -, hfield⟩
  have hname : name = "id" := congrArg ResponseField.name hfield
  rcases visits_nodeDocumentLeft hvisits with rfl | rfl
  · cases List.mem_singleton.mp hs
    exact absurd hname (by decide)
  · cases List.mem_singleton.mp hs
    exact absurd hname (by decide)

/-- A document of fragments with distinct names and without cycles, one of its operations and a
response that the schema allows: a field is collected before, and not once the repetitions of the ID
fragment are taken out. -/
theorem removeIdDuplicates_loses : ∃ result o o' position field,
    nodeDocument.removeIdDuplicates nodeSchema "Foo" "FooId" = .ok result
      ∧ nodeDocument.fragmentNames.Nodup ∧ nodeDocument.Acyclic
      ∧ nodeDocument.operations[1]? = some o ∧ result.operations[1]? = some o'
      ∧ nodeResponse.Allowed nodeSchema o.kind
      ∧ nodeResponse.Collects nodeSchema nodeDocument o position field
      ∧ ¬ nodeResponse.Collects nodeSchema result o' position field :=
  ⟨nodeDocumentLeft, _, _, nodePosition, responseField none "id" [], removeIdDuplicates_node,
    by decide, acyclic_nodeDocument, rfl, rfl, allowed_nodeResponse, collects_nodeDocument,
    not_collects_nodeDocumentLeft⟩

/-- It is lost since a repetition is entered for the node, or for the root, and the ID fragment is
not. -/
theorem removeIdDuplicates_collects_node :
    ∃ d : Document.Deduplication nodeSchema "Foo" "FooId" nodeDocument nodeDocumentLeft,
      ∃ above, above <+: nodePosition
        ∧ d.Loses nodeResponse (nodeOperation [.plain "name", .spread "Key" []]) above := by
  obtain ⟨d, hcollects⟩ := removeIdDuplicates_collects removeIdDuplicates_node (by decide)
    (acyclic_nodeDocument "FooId")
  obtain ⟨-, hsecond⟩ := List.forall₂_cons.mp hcollects
  obtain ⟨hsecond, -⟩ := List.forall₂_cons.mp hsecond
  have hfound : fooIdFragment = d.found := Option.some.inj d.find
  have hspreads : nodeResponse.AdmitsSpreads d.found.selections := by
    rw [← hfound]
    intro set hset fragment directives hs
    cases List.mem_singleton.mp hset
    cases List.mem_singleton.mp hs
  refine ⟨d, ?_⟩
  by_contra hkept
  push Not at hkept
  exact not_collects_nodeDocumentLeft
    ((hsecond nodeResponse nodePosition _).2 hspreads collects_nodeDocument hkept)

end RemoteNodes
