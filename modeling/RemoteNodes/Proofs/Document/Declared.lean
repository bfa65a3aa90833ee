import Mathlib.Tactic
import RemoteNodes.Proofs.Document.BreadthFirst
import RemoteNodes.Proofs.Document.Uses
/-!
Operations come to declare exactly what they use.

* `Document.InReach`: the order in which an operation leads to fragments. `Document.UsesAt`: a
  variable is used at a place of an operation or of these fragments.
* `Lacks`: the definitions that are lacking, each at the first place of its variable.
  `lacks_of_enumerates`: a list of such definitions by places has all of them.
* `Document.withVariables_withVariables`: declaring twice is declaring once.
* `Document.declareVariables_exact`: **operations get the definitions that they lack behind those
  that they have, and nothing else changes**.
-/

namespace RemoteNodes

open Relation

/-! ### What is lacking -/

section Lacks

variable {uses : List Nat → VariableUse → Prop} {declared added : List VariableDefinition}

/-- The definitions that are lacking for uses at places: one for each variable that is used at a
place of known type and not declared, by the first such place and with its type. -/
structure Lacks (uses : List Nat → VariableUse → Prop) (declared added : List VariableDefinition) :
    Prop where
  nodup : (added.map (·.name)).Nodup
  mem_names_iff : ∀ name, name ∈ added.map (·.name)
    ↔ name ∉ declared.map (·.name) ∧ ∃ place type, uses place ⟨name, some type⟩
  typed : ∀ v ∈ added, v = { name := v.name, type := v.type }
    ∧ ∃ place, FirstTyped uses v.name v.type place
  sorted : added.Pairwise fun v w => ∀ place place', FirstTyped uses v.name v.type place
    → FirstTyped uses w.name w.type place' → place < place'

/-- A name has one first place of known type. -/
lemma FirstTyped.place_unique {name : String} {type type' : TypeRef} {place place' : List Nat}
    (h : FirstTyped uses name type place) (h' : FirstTyped uses name type' place') :
    place = place' :=
  le_antisymm (not_lt.mp (h.2 _ _ h'.1)) (not_lt.mp (h'.2 _ _ h.1))

/-- A use without a declaration, at the first place of its variable. -/
def LackingAt (uses : List Nat → VariableUse → Prop) (declared : List VariableDefinition)
    (place : List Nat) (v : VariableDefinition) : Prop :=
  FirstTyped uses v.name v.type place ∧ v.name ∉ declared.map (·.name)
    ∧ v = { name := v.name, type := v.type }

lemma lacks_of_enumerates (h : Enumerates (LackingAt uses declared) added)
    (hfirst : ∀ name place type, uses place ⟨name, some type⟩
      → ∃ first type', FirstTyped uses name type' first) : Lacks uses declared added := by
  have hsorted := h.pairwise fun v place place' hv hv' => hv.1.place_unique hv'.1
  have hlacking {v : VariableDefinition} (hv : v ∈ added) :
      ∃ place, LackingAt uses declared place v := h.mem_iff.mp hv
  refine ⟨?_, fun name => ⟨?_, ?_⟩, fun v hv => ?_, ?_⟩
  · refine List.pairwise_map.mpr (hsorted.imp_of_mem fun {v w} hv hw hlt heq => ?_)
    -- two definitions of one variable would be at one place
    obtain ⟨place, hplace⟩ := hlacking hv
    obtain ⟨place', hplace'⟩ := hlacking hw
    have hplaces := hplace.1.place_unique (heq ▸ hplace'.1)
    exact absurd (hlt place place' hplace hplace') (hplaces ▸ lt_irrefl place)
  · intro hname
    obtain ⟨v, hv, rfl⟩ := List.mem_map.mp hname
    obtain ⟨place, hplace, hnew, -⟩ := hlacking hv
    exact ⟨hnew, place, v.type, hplace.1⟩
  · rintro ⟨hnew, place, type, huse⟩
    obtain ⟨first, type', hplace⟩ := hfirst name place type huse
    exact List.mem_map.mpr
      ⟨{ name, type := type' }, h.mem_iff.mpr ⟨first, hplace, hnew, rfl⟩, rfl⟩
  · obtain ⟨place, hplace, -, heq⟩ := hlacking hv
    exact ⟨heq, place, hplace⟩
  · refine hsorted.imp_of_mem fun {v w} hv hw hlt place place' hplace hplace' => ?_
    obtain ⟨_, -, hv⟩ := hlacking hv
    obtain ⟨_, -, hw⟩ := hlacking hw
    exact hlt place place' ⟨hplace, hv⟩ ⟨hplace', hw⟩

end Lacks

namespace Document

variable {schema : Schema} {document : Document} {o : Operation} {order : List String}

/-! ### Uses within reach -/

/-- The names of the fragments that an operation leads to, one spread after the other: first those
that it spreads itself, then those that these spread, and so on. -/
structure InReach (document : Document) (o : Operation) (order : List String) : Prop where
  breadthFirst : BreadthFirst document.spreadsOf [] (spreadNamesIn o.selections).eraseDups order
  mem_iff : ∀ name, name ∈ order
    ↔ ∃ first ∈ spreadNamesIn o.selections, ReflTransGen document.Spreads first name

/-- A variable is used at a place of an operation or of a fragment in its reach. The operation comes
first and the fragments come in their order. -/
inductive UsesAt (document : Document) (schema : Schema) (o : Operation) (order : List String) :
    List Nat → VariableUse → Prop
  | own {place : List Nat} {use : VariableUse} (h : o.UsesAt schema place use) :
      UsesAt document schema o order (0 :: place) use
  | fragment {i : Nat} {f : Fragment} {place : List Nat} {use : VariableUse}
      (hf : f ∈ document.fragments) (hname : order[i]? = some f.name)
      (h : f.UsesAt schema place use) : UsesAt document schema o order ((1 + i) :: place) use

/-- Among fragments with distinct names, what is used in the fragment of a name. -/
lemma enumerates_fragmentUses (hfragments : document.fragmentNames.Nodup) (name : String) :
    Enumerates
      (fun place use => ∃ f ∈ document.fragments, f.name = name ∧ f.UsesAt schema place use)
      (document.fragmentUses schema name) := by
  rw [fragmentUses]
  split
  · rename_i f hfind
    have hf := List.mem_reverse.mp (List.mem_of_find?_eq_some hfind)
    have hname : f.name = name := by simpa using List.find?_some hfind
    refine f.enumerates_uses.congr fun place use => ⟨?_, fun h => ⟨f, hf, hname, h⟩⟩
    rintro ⟨g, hg, hgname, h⟩
    rwa [List.inj_on_of_nodup_map hfragments hg hf (hgname.trans hname.symm)] at h
  · rename_i hfind
    refine .nil fun place use h => ?_
    obtain ⟨f, hf, hname, -⟩ := h
    have hnone := List.find?_eq_none.mp hfind f (List.mem_reverse.mpr hf)
    exact hnone (beq_iff_eq.mpr hname)

lemma inReach_reachable (hfragments : document.fragmentNames.Nodup) (o : Operation) :
    document.InReach o (document.reachable (spreadNamesIn o.selections)) :=
  ⟨document.breadthFirst_reachable _, fun _ => mem_reachable_iff_spreads hfragments⟩

section Distinct

variable (hoperations : (document.operations.map (·.name?)).Nodup)
  (hfragments : document.fragmentNames.Nodup)
include hoperations hfragments

lemma enumerates_operationUses (schema : Schema) (ho : o ∈ document.operations) :
    Enumerates (document.UsesAt schema o (document.reachable (spreadNamesIn o.selections)))
      (document.operationUses schema o) := by
  rw [operationUses, lastOperation_eq hoperations ho]
  refine ((o.enumerates_uses.below 0).append (Enumerates.flatMap_from
    (fun name _ => enumerates_fragmentUses hfragments name) 1) ?_).congr
    fun place use => ⟨fun h => ?_, ?_⟩
  · rintro _ x _ y ⟨rest, rfl, -⟩ ⟨i, name, rest', rfl, -, -⟩
    exact List.cons_lt_cons_iff.mpr (.inl (by omega))
  · cases h with
    | own h => exact .inl ⟨_, rfl, h⟩
    | fragment hf hname h => exact .inr ⟨_, _, _, rfl, hname, _, hf, rfl, h⟩
  · rintro (⟨rest, rfl, h⟩ | ⟨i, name, rest, rfl, hname, f, hf, rfl, h⟩)
    · exact .own h
    · exact .fragment hf hname h

/-- What an operation is given is what it lacks. -/
theorem lacks_missingVariables (ho : o ∈ document.operations) :
    Lacks (document.UsesAt schema o (document.reachable (spreadNamesIn o.selections)))
      o.variableDefinitions (document.missingVariables schema o) := by
  have huses := enumerates_operationUses hoperations hfragments schema ho
  refine lacks_of_enumerates ((huses.firstTyped.filterMap _).congr fun place v => ?_)
    fun name place type huse => ?_
  · have hdeclared (name : String) : o.variableDefinitions.any (·.name == name) = true
        ↔ name ∈ o.variableDefinitions.map (·.name) := by
      rw [List.any_eq_true, List.mem_map]
      exact exists_congr fun v => and_congr_right fun _ => beq_iff_eq
    constructor
    · rintro ⟨hfirst, hnew, heq⟩
      exact ⟨(v.name, v.type), hfirst, (if_neg (mt (hdeclared _).mp hnew)).trans (by rw [← heq])⟩
    · rintro ⟨⟨name, type⟩, hfirst, heq⟩
      obtain ⟨hnew, hv⟩ := Option.ite_none_left_eq_some.mp heq
      obtain rfl := Option.some.inj hv
      exact ⟨hfirst, mt (hdeclared _).mpr hnew, rfl⟩
  · have htyped : name ∈ Keyed.keys (typedUses (document.operationUses schema o)) :=
      mem_keys_typedUses.mpr ⟨type, huses.mem_iff.mpr ⟨place, huse⟩⟩
    obtain ⟨⟨_, first⟩, hfirst, rfl⟩ := List.mem_map.mp htyped
    obtain ⟨place', hplace'⟩ := huses.firstTyped.mem_iff.mp hfirst
    exact ⟨place', first, hplace'⟩

end Distinct

/-! ### Declaring twice -/

lemma declaring_declaring (o : Operation) :
    (document.withVariables schema).declaring schema (document.declaring schema o)
      = document.declaring schema o := by
  have hnone : (document.withVariables schema).missingVariables schema
      (document.declaring schema o) = [] := by
    refine List.filterMap_eq_nil_iff.mpr fun p hp => if_pos ?_
    obtain ⟨type', huse⟩ := mem_keys_typedUses.mp (List.mem_map.mpr ⟨p, hp, rfl⟩)
    rw [operationUses_withVariables] at huse
    obtain ⟨v, hv, hname⟩ := List.mem_map.mp (mem_declared_of_mem_uses huse rfl)
    exact List.any_eq_true.mpr ⟨v, hv, beq_iff_eq.mpr hname⟩
  conv_lhs => rw [declaring, hnone, List.append_nil]

/-- Declaring twice is declaring once. -/
theorem withVariables_withVariables (document : Document) (schema : Schema) :
    (document.withVariables schema).withVariables schema = document.withVariables schema := by
  conv_lhs => rw [withVariables_eq, mapParts]
  conv_lhs => arg 2; rw [withVariables_eq, mapParts]
  rw [List.map_map]
  refine List.map_congr_left fun d _ => ?_
  cases d with
  | operation o => exact congrArg Definition.operation (declaring_declaring o)
  | fragment _ | schema _ | type _ | directive _ => rfl

/-! ### Declaring -/

/-- An operation with the definitions that it lacks behind those that it has, or another definition
as it is. -/
inductive Completes (document : Document) (schema : Schema) : Definition → Definition → Prop
  | operation {o : Operation} {order : List String} {added : List VariableDefinition}
      (horder : document.InReach o order)
      (hadded : Lacks (document.UsesAt schema o order) o.variableDefinitions added) :
      Completes document schema (.operation o)
        (.operation { o with variableDefinitions := o.variableDefinitions ++ added })
  | other {d : Definition} (h : d.operation? = none) : Completes document schema d d

/-- Declaring variables in a document with distinct names of operations and fragments (one operation
may have no name), whatever its spreads and the schema. Each operation gets, behind the definitions
that it has, one for each variable that is used at a place of known type, in the operation or in a
fragment that it leads to, and that it does not define; these are in the order of the first such
places, with the types of these. Nothing else changes, and declaring once more changes nothing at
all. -/
theorem declareVariables_exact (document : Document) (schema : Schema)
    (hoperations : (document.operations.map (·.name?)).Nodup)
    (hfragments : document.fragmentNames.Nodup) :
    ∃ result, (document.declareVariables schema).outcome = .ok result
      ∧ List.Forall₂ (document.Completes schema) document result
      ∧ (result.declareVariables schema).outcome = .ok result := by
  refine ⟨document.withVariables schema, outcome_declareVariables _ _, ?_, ?_⟩
  · rw [withVariables_eq, mapParts, List.forall₂_map_right_iff, List.forall₂_same]
    intro d hd
    cases d with
    | operation o =>
        have ho : o ∈ document.operations := List.mem_filterMap.mpr ⟨_, hd, rfl⟩
        exact .operation (inReach_reachable hfragments o)
          (lacks_missingVariables hoperations hfragments ho)
    | fragment _ | schema _ | type _ | directive _ => exact .other rfl
  · rw [outcome_declareVariables, withVariables_withVariables]

/-! ### Fragments that spread each other -/

/-- A schema with rows that are asked for piece by piece. -/
def rowsSchema : Schema where
  types := [⟨"ID", .scalar⟩, ⟨"Int", .scalar⟩,
    ⟨"Foo", .object [] [⟨"rows", .list (.named "Int"),
      [{ name := "size", type := .named "Int" }, { name := "after", type := .named "ID" }]⟩]⟩,
    ⟨"Query", .object [] [⟨"foo", .named "Foo",
      [{ name := "id", type := .nonNull (.named "ID") },
        { name := "page", type := .named "Int" }]⟩]⟩]
  directives := []
  query? := some "Query"

/-- Rows of a piece, and what another fragment asks for. -/
def rowsFragment (name size after next : String) : Definition :=
  .fragment {
    name
    condition := "Foo"
    selections := [
      .field none "rows" [⟨"size", .variable size⟩, ⟨"after", .variable after⟩] [] none,
      .spread next []] }

/-- An operation that uses a variable first at an argument that the schema does not have. -/
def rowsOperation (declared : List VariableDefinition) : Operation where
  kind := .query
  name? := some "NODE_Foo"
  variableDefinitions := declared
  directives := []
  selections := [.field none "foo" [⟨"of", .variable "size"⟩, ⟨"page", .variable "page"⟩,
    ⟨"id", .variable "id"⟩] [] (some [.spread "Head" [], .spread "Missing" []])]

/-- The operation leads to fragments that spread each other, and to none of another name. -/
def rowsDocument (declared : List VariableDefinition) : Document := [
  rowsFragment "Tail" "id" "last" "Head",
  .operation (rowsOperation declared),
  rowsFragment "Head" "size" "id" "Tail"]

/-- The page is defined. -/
def rowsDeclared : List VariableDefinition := [{ name := "page", type := .named "Int" }]

/-- What the operation lacks. -/
def rowsLacking : List VariableDefinition :=
  [{ name := "id", type := .nonNull (.named "ID") }, { name := "size", type := .named "Int" },
    { name := "last", type := .named "ID" }]

lemma operationUses_rows : (rowsDocument rowsDeclared).operationUses rowsSchema
    (rowsOperation rowsDeclared) = [⟨"size", none⟩, ⟨"page", some (.named "Int")⟩,
      ⟨"id", some (.nonNull (.named "ID"))⟩, ⟨"size", some (.named "Int")⟩,
      ⟨"id", some (.named "ID")⟩, ⟨"id", some (.named "Int")⟩, ⟨"last", some (.named "ID")⟩] := by
  decide +kernel

/-- The operation gets the other definitions, each with the first type. -/
theorem declareVariables_exact_rows :
    ((rowsDocument rowsDeclared).declareVariables rowsSchema).outcome
        = .ok (rowsDocument (rowsDeclared ++ rowsLacking))
      ∧ List.Forall₂ ((rowsDocument rowsDeclared).Completes rowsSchema) (rowsDocument rowsDeclared)
        (rowsDocument (rowsDeclared ++ rowsLacking))
      ∧ ((rowsDocument (rowsDeclared ++ rowsLacking)).declareVariables rowsSchema).outcome
        = .ok (rowsDocument (rowsDeclared ++ rowsLacking)) := by
  obtain ⟨result, hresult, hcompletes, hagain⟩ := declareVariables_exact
    (rowsDocument rowsDeclared) rowsSchema (by decide) (by decide)
  have hlacking : (rowsDocument rowsDeclared).missingVariables rowsSchema
      (rowsOperation rowsDeclared) = rowsLacking := by
    rw [missingVariables, operationUses_rows]
    rfl
  have heq : (rowsDocument rowsDeclared).withVariables rowsSchema
      = rowsDocument (rowsDeclared ++ rowsLacking) := by
    rw [← hlacking]
    rfl
  rw [outcome_declareVariables] at hresult
  obtain rfl := heq.symm.trans (Except.ok.inj hresult)
  exact ⟨by rw [outcome_declareVariables, heq], hcompletes, hagain⟩

end Document

end RemoteNodes
