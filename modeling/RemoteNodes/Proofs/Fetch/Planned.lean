import Mathlib.Tactic
import RemoteNodes.Fetch.Pagination
import RemoteNodes.Proofs.Document.Preorder
import RemoteNodes.Proofs.Document.Variables
/-!
Compiled operations that can be walked page by page. Compiling declares variables by the types of
the places where they are used, fragment by fragment; planning opens the fragments where they are
spread and goes by names alone.

* `TypedPlace`: a walk in pre-order that keeps track of types.
* `TypedPlace.Seen`: what is used at a place is used in the operation or in a fragment within its
  reach; `TypedPlace.seen_of_reached`: **this holds along the whole walk**.
* `exists_plan`: **if a field asks for pages at places of known types, the operation is walked by
  limit and offset**, at the first field that asks for pages; `exists_untyped_plan`: which need not
  be that field.
-/

namespace RemoteNodes

open Relation

/-! ### Places with types -/

/-- A place with the composite type that its selection is made on. -/
structure TypedPlace where
  parent? : Option NamedType
  place : Place

/-- The variables of one way to ask for pages. -/
def limitOffsetNames : List String := ["limit", "offset"]

namespace TypedPlace

variable {schema : Schema} {fragments : List Fragment} {t : TypedPlace} {a b : List TypedPlace}

/-- The composite type that the selections inside a place are made on. -/
def typeInside? (schema : Schema) (fragments : List Fragment) : TypedPlace → Option NamedType
  | ⟨parent?, ⟨_, .field _ name _ _ _⟩⟩ => schema.insideField? parent? name
  | ⟨parent?, ⟨_, .inline condition? _ _⟩⟩ => schema.insideInline? parent? condition?
  | ⟨_, ⟨_, .spread name _⟩⟩ =>
    (lastFragment? fragments name).bind fun f => schema.composite? f.condition

/-- The first place is left for the places inside it, with their type. -/
inductive Step (schema : Schema) (fragments : List Fragment) :
    List TypedPlace → List TypedPlace → Prop
  | enter {t : TypedPlace} {inside : List Place} (rest : List TypedPlace)
      (h : t.place.inside? fragments = some inside) :
      Step schema fragments (t :: rest)
        (inside.map (⟨t.typeInside? schema fragments, ·⟩) ++ rest)

/-- The variables in the arguments of a field, with the types of their places. -/
def argumentUses (schema : Schema) : TypedPlace → List VariableUse
  | ⟨parent?, ⟨_, .field _ name arguments _ _⟩⟩ =>
    RemoteNodes.argumentUses schema (schema.fieldInputs parent? name) arguments
  | _ => []

/-- A field, not too deep, that asks for pages in arguments of known types. -/
def Paged (schema : Schema) (t : TypedPlace) : Prop :=
  t.place.path.length ≤ maxNesting
    ∧ ∀ name ∈ limitOffsetNames, ∃ type, ⟨name, some type⟩ ∈ t.argumentUses schema

/-- The walk without the types. -/
lemma Step.untyped (h : Step schema fragments a b) :
    Place.Step fragments (a.map (·.place)) (b.map (·.place)) := by
  cases h with
  | @enter t inside rest h =>
      have hid : (fun t : TypedPlace => t.place) ∘ (⟨t.typeInside? schema fragments, ·⟩) = id := rfl
      rw [List.map_cons, List.map_append, List.map_map, hid, List.map_id]
      exact .enter _ h

end TypedPlace

/-- A field, not too deep, that asks for pages. -/
def Place.Paged (place : Place) : Prop :=
  place.path.length ≤ maxNesting
    ∧ ∀ name ∈ limitOffsetNames, name ∈ place.selection.argumentVariables

namespace Operation

/-- The places of an operation. -/
def places (o : Operation) : List Place := o.selections.map (⟨[], ·⟩)

/-- The places of an operation with the type that it selects on. -/
def typedPlaces (o : Operation) (schema : Schema) : List TypedPlace :=
  o.places.map (⟨schema.operationType? o.kind, ·⟩)

end Operation

section Names

variable {schema : Schema}

mutual

/-- A variable that is used somewhere in a literal is in it. -/
lemma Literal.mem_variableNames_of_mem_uses {use : VariableUse} : ∀ (x : Literal)
    (type? : Option TypeRef), use ∈ x.uses schema type? → use.name ∈ x.variableNames
  | .variable name, type?, h => by
      obtain rfl := List.mem_singleton.mp h
      exact List.mem_singleton_self _
  | .list items, type?, h => mem_itemVariables_of_mem_itemUses items _ h
  | .object fields, type?, h => mem_fieldVariables_of_mem_fieldUses fields _ h
  | .int _, _, h | .float _, _, h | .string _ _, _, h | .boolean _, _, h | .null, _, h
  | .enum _, _, h => nomatch h

lemma mem_itemVariables_of_mem_itemUses {use : VariableUse} : ∀ (xs : List Literal)
    (type? : Option TypeRef), use ∈ itemUses schema type? xs → use.name ∈ itemVariables xs
  | x :: xs, type?, h => by
      rw [itemVariables, List.mem_append]
      exact (List.mem_append.mp h).imp (x.mem_variableNames_of_mem_uses type?)
        (mem_itemVariables_of_mem_itemUses xs type?)

lemma mem_fieldVariables_of_mem_fieldUses {use : VariableUse} : ∀ (xs : List (String × Literal))
    (type? : Option TypeRef), use ∈ fieldUses schema type? xs → use.name ∈ fieldVariables xs
  | (_, x) :: xs, type?, h => by
      rw [fieldVariables, List.mem_append]
      exact (List.mem_append.mp h).imp (x.mem_variableNames_of_mem_uses _)
        (mem_fieldVariables_of_mem_fieldUses xs type?)

end

/-- The types are not needed to find the variables. -/
lemma TypedPlace.mem_argumentVariables {t : TypedPlace} {use : VariableUse}
    (h : use ∈ t.argumentUses schema) : use.name ∈ t.place.selection.argumentVariables := by
  obtain ⟨parent?, path, s⟩ := t
  cases s with
  | field alias? name arguments directives selections? =>
      obtain ⟨argument, hargument, huse⟩ := List.mem_flatMap.mp h
      exact List.mem_flatMap.mpr
        ⟨argument, hargument, argument.value.mem_variableNames_of_mem_uses _ huse⟩
  | spread | inline => cases h

lemma TypedPlace.Paged.untyped {t : TypedPlace} (h : t.Paged schema) : t.place.Paged :=
  ⟨h.1, fun name hname => (h.2 name hname).elim fun _ huse => mem_argumentVariables huse⟩

end Names

/-! ### What the walk sees -/

section Seen

variable {schema : Schema} {document : Document} {o : Operation}

/-- What is used at a place is used in the operation or in a fragment within its reach, and what is
spread there is within reach. -/
structure TypedPlace.Seen (schema : Schema) (document : Document) (o : Operation)
    (t : TypedPlace) : Prop where
  uses : ∃ inputs, t.place.selection.uses schema t.parent? inputs ⊆ document.operationUses schema o
  spreads : t.place.selection.spreadNames ⊆ document.reachable
    (spreadNamesIn (document.lastOperation o).selections)

lemma Document.fragmentUses_subset_operationUses {name : String} (h : name ∈ document.reachable
    (spreadNamesIn (document.lastOperation o).selections)) :
    document.fragmentUses schema name ⊆ document.operationUses schema o :=
  fun _ huse => List.mem_append_right _ (List.mem_flatMap.mpr ⟨name, h, huse⟩)

/-- Whatever is used and spread in selections is seen in each of them. -/
lemma seen_of_mem {parent? : Option NamedType} {inputs : List InputField} {ss : List Selection}
    (huses : usesIn schema parent? inputs ss ⊆ document.operationUses schema o)
    (hspreads : spreadNamesIn ss ⊆ document.reachable
    (spreadNamesIn (document.lastOperation o).selections))
    (path : List String) : ∀ place ∈ ss.map (Place.mk path ·),
      TypedPlace.Seen schema document o ⟨parent?, place⟩ := by
  refine List.forall_mem_map.mpr fun s hs => ⟨⟨inputs, ?_⟩, ?_⟩
  · exact List.Subset.trans (uses_subset_usesIn hs) huses
  · exact fun name hname => hspreads (mem_spreadNamesIn.mpr ⟨s, hs, hname⟩)

namespace TypedPlace

variable {t : TypedPlace} {a b : List TypedPlace}

lemma Seen.inside {inside : List Place} (h : t.Seen schema document o)
    (hinside : t.place.inside? document.fragments = some inside) :
    ∀ place ∈ inside, Seen schema document o ⟨t.typeInside? schema document.fragments, place⟩ := by
  obtain ⟨parent?, path, s⟩ := t
  obtain ⟨⟨inputs, huses⟩, hspreads⟩ := h
  cases s with
  | field alias? name arguments directives selections? =>
      rw [Place.inside?] at hinside
      split at hinside
      · cases hinside
      · obtain rfl := Option.some.inj hinside
        cases selections? with
        | none => exact List.forall_mem_nil _
        | some selections =>
            rw [Selection.uses] at huses
            exact seen_of_mem (List.append_subset.mp huses).2 hspreads _
  | spread name directives =>
      obtain ⟨f, hf, rfl⟩ := Option.map_eq_some_iff.mp hinside
      have hlast : document.fragments.reverse.find? (·.name == name) = some f := hf
      have hreach := hspreads (List.mem_singleton_self name)
      have hfragment : f.uses schema ⊆ document.operationUses schema o := by
        have hname : document.fragmentUses schema name ⊆ document.operationUses schema o :=
          Document.fragmentUses_subset_operationUses hreach
        rwa [Document.fragmentUses, hlast] at hname
      rw [typeInside?, hf, Option.bind_some]
      refine seen_of_mem (List.append_subset.mp hfragment).2 (fun n hn => ?_) path
      refine Document.mem_reachable_of_mem_spreadsOf hreach ?_
      rwa [Document.spreadsOf, hlast]
  | inline condition? directives selections =>
      obtain rfl := Option.some.inj hinside
      rw [Selection.uses] at huses
      exact seen_of_mem (List.append_subset.mp huses).2 hspreads path

/-- What is seen stays seen along the walk. -/
lemma seen_of_step (h : Step schema document.fragments a b)
    (ha : ∀ t ∈ a, t.Seen schema document o) : ∀ t ∈ b, t.Seen schema document o := by
  cases h with
  | @enter t inside rest h =>
      obtain ⟨ht, hrest⟩ := List.forall_mem_cons.mp ha
      exact List.forall_mem_append.mpr ⟨List.forall_mem_map.mpr (ht.inside h), hrest⟩

theorem seen_of_reached (h : ReflTransGen (Step schema document.fragments) a b)
    (ha : ∀ t ∈ a, t.Seen schema document o) : ∀ t ∈ b, t.Seen schema document o := by
  induction h with
  | refl => exact ha
  | tail _ hstep ih => exact seen_of_step hstep ih

end TypedPlace

end Seen

/-! ### Planning -/

section Plan

variable {schema : Schema} {declarations : List NodeDeclaration} {sources : List String}
  {aliases : Aliases} {type : String} {documents : Keyed Document} {document : Document}
  {o : Operation} {name : String}

/-- The operation of a name that no other operation has. -/
lemma Document.operation_eq_ok (hunique : (document.operations.map (·.name?)).Nodup)
    (ho : o ∈ document.operations) (hname : o.name? = some name) :
    document.operation name = .ok o := by
  rw [operation]
  split
  · rename_i other hother
    have hsame : other.name? = some name := by simpa using List.find?_some hother
    rw [List.inj_on_of_nodup_map hunique (List.mem_of_find?_eq_some hother) ho
      (hsame.trans hname.symm)]
  · rename_i hnone
    have hno := List.find?_eq_none.mp hnone o ho
    rw [hname] at hno
    exact absurd (beq_self_eq_true _) hno

/-- Compiled operations have names. -/
lemma Compilation.exists_name (c : Compilation schema declarations sources aliases type document)
    (ho : o ∈ document.operations) : ∃ name, o.name? = some name := by
  rw [c.operations_eq] at ho
  obtain ⟨before, hbefore, rfl⟩ := List.mem_map.mp ho
  exact Option.isSome_iff_exists.mp (List.all_eq_true.mp c.named before hbefore)

lemma TypedPlace.argumentUses_subset (t : TypedPlace) (inputs : List InputField) :
    t.argumentUses schema ⊆ t.place.selection.uses schema t.parent? inputs := by
  obtain ⟨parent?, path, s⟩ := t
  cases s with
  | field alias? name arguments directives selections? =>
      cases selections? with
      | none => exact List.subset_append_left _ _
      | some selections =>
          rw [Selection.uses, List.append_assoc]
          exact List.subset_append_left _ _
  | spread | inline => exact List.nil_subset _

/-- All that is used on the way through an operation is used in it or in a fragment within its
reach. -/
lemma TypedPlace.argumentUses_subset_of_reached
    (hunique : (document.operations.map (·.name?)).Nodup) (ho : o ∈ document.operations)
    {t : TypedPlace} {rest : List TypedPlace}
    (hreached : ReflTransGen (Step schema document.fragments) (o.typedPlaces schema) (t :: rest)) :
    t.argumentUses schema ⊆ document.operationUses schema o := by
  have hlast := Document.lastOperation_eq hunique ho
  have huses : o.uses schema ⊆ document.operationUses schema o := by
    rw [Document.operationUses, hlast]
    exact List.subset_append_left _ _
  have hspreads : spreadNamesIn o.selections
      ⊆ document.reachable (spreadNamesIn (document.lastOperation o).selections) := by
    rw [hlast]
    exact fun _ => Document.mem_reachable_of_mem
  have hstart : ∀ t ∈ o.typedPlaces schema, t.Seen schema document o :=
    List.forall_mem_map.mpr (seen_of_mem (List.append_subset.mp huses).2 hspreads [])
  obtain ⟨⟨inputs, hseen⟩, -⟩ := seen_of_reached hreached hstart t List.mem_cons_self
  exact List.Subset.trans (t.argumentUses_subset inputs) hseen

/-- The walk through an operation without the types. -/
lemma TypedPlace.untyped_of_reached {t : TypedPlace} {rest : List TypedPlace}
    (h : ReflTransGen (Step schema document.fragments) (o.typedPlaces schema) (t :: rest)) :
    ReflTransGen (Place.Step document.fragments) o.places (t.place :: rest.map (·.place)) := by
  have hid : (fun t : TypedPlace => t.place) ∘ (⟨schema.operationType? o.kind, ·⟩) = id := rfl
  have hstart : (o.typedPlaces schema).map (·.place) = o.places := by
    rw [Operation.typedPlaces, List.map_map, hid, List.map_id]
  rw [← hstart]
  exact h.lift (List.map (·.place)) fun _ _ => Step.untyped

/-- The search for a field that asks for pages by limit and offset. -/
def pagedSearch (document : Document) : FieldSearch :=
  ⟨document.fragments, fun s => PageStrategy.limitOffset.accepts s.argumentVariables⟩

lemma accepts_iff {names : List String} :
    PageStrategy.limitOffset.accepts names = true ↔ ∀ name ∈ limitOffsetNames, name ∈ names := by
  simp [PageStrategy.accepts, limitOffsetNames]

/-- Only fields have arguments. -/
lemma Place.Paged.isField {place : Place} (h : place.Paged) : place.selection.isField = true := by
  have hlimit := h.2 "limit" List.mem_cons_self
  obtain ⟨path, s⟩ := place
  cases s with
  | field => rfl
  | spread | inline => cases hlimit

lemma Place.fieldPath_ne_nil {place : Place} (h : place.selection.isField = true) :
    place.fieldPath ≠ [] := by
  obtain ⟨path, s⟩ := place
  cases s with
  | field => exact List.append_ne_nil_of_right_ne_nil _ (List.cons_ne_nil _ _)
  | spread | inline => cases h

lemma hits_pagedSearch : (pagedSearch document).Hits = Place.Paged := by
  funext place
  refine propext ⟨fun ⟨_, hdepth, htest⟩ => ⟨hdepth, accepts_iff.mp htest⟩, fun h => ?_⟩
  exact ⟨h.isField, h.1, accepts_iff.mpr h.2⟩

/-- **Compiling and planning agree**: an operation in which some field asks for pages by limit and
offset at places of known types is walked so, at the first field that asks for such pages. -/
theorem exists_plan
    (h : (compileQueries schema declarations sources aliases).outcome = .ok documents)
    (hdocument : Keyed.get? documents type = some document)
    (hunique : (document.operations.map (·.name?)).Nodup) (ho : o ∈ document.operations)
    {t : TypedPlace} {rest : List TypedPlace}
    (hreached : ReflTransGen (TypedPlace.Step schema document.fragments) (o.typedPlaces schema)
      (t :: rest))
    (hpaged : t.Paged schema) (bindings : Keyed Json) :
    ∃ name place, o.name? = some name
      ∧ Place.First document.fragments o.places Place.Paged place
      ∧ PagePlan.make document name bindings [.limitOffset, .relayForward]
        = .ok ⟨document, name, .limitOffset, place.fieldPath, bindings⟩ := by
  obtain ⟨c⟩ := exists_compilation h hdocument
  obtain ⟨name, hname⟩ := c.exists_name ho
  have hoperation := Document.operation_eq_ok hunique ho hname
  have hdeclared : ∀ n ∈ limitOffsetNames, n ∈ o.variableDefinitions.map (·.name) := by
    intro n hn
    obtain ⟨_, huse⟩ := hpaged.2 n hn
    exact c.mem_declared ho
      (TypedPlace.argumentUses_subset_of_reached hunique ho hreached huse) rfl
  have hresolve : PageStrategy.resolve [.limitOffset, .relayForward]
      (o.variableDefinitions.map (·.name)) = .ok .limitOffset := by
    rw [PageStrategy.resolve, List.find?_cons_of_pos (accepts_iff.mpr hdeclared)]
  have hhits : (pagedSearch document).Hits t.place := by
    rw [hits_pagedSearch]
    exact hpaged.untyped
  obtain ⟨place, hfirst, hfound⟩ :=
    FieldSearch.exists_first_of_reached hhits (TypedPlace.untyped_of_reached hreached)
  rw [hits_pagedSearch] at hfirst
  have hplace : place.Paged := hfirst.elim fun _ h => h.2.1
  have hpath : document.fieldPath name
      (fun s => PageStrategy.limitOffset.accepts s.argumentVariables) = .ok place.fieldPath :=
    bind_eq_ok.mpr ⟨o, hoperation, bind_eq_ok.mpr ⟨_, hfound, rfl⟩⟩
  have hnames : document.declaredVariables name = .ok (o.variableDefinitions.map (·.name)) :=
    bind_eq_ok.mpr ⟨o, hoperation, rfl⟩
  have hne : ¬ place.fieldPath.isEmpty = true := by
    rw [List.isEmpty_iff]
    exact Place.fieldPath_ne_nil hplace.isField
  refine ⟨name, place, hname, hfirst, ?_⟩
  refine bind_eq_ok.mpr ⟨_, hnames, bind_eq_ok.mpr ⟨_, hresolve, bind_eq_ok.mpr ⟨_, hpath, ?_⟩⟩⟩
  rw [if_neg hne]
  rfl

end Plan

/-! ### A field that asks for pages in vain -/

/-- A schema with a type that is listed page by page and counted at once. -/
def pagedSchema : Schema where
  types := [⟨"ID", .scalar⟩, ⟨"Int", .scalar⟩,
    ⟨"Foo", .object [] [⟨"id", .named "ID", []⟩]⟩,
    ⟨"Query", .object [] [⟨"count", .named "Int", []⟩, ⟨"allFoo", .list (.named "Foo"),
      [{ name := "limit", type := .named "Int" }, { name := "offset", type := .named "Int" }]⟩]⟩]
  directives := []
  query? := some "Query"

/-- Arguments that ask for pages. -/
def pageArguments : List Argument :=
  [⟨"limit", .variable "limit"⟩, ⟨"offset", .variable "offset"⟩]

/-- A declaration that asks for pages of the count, too. -/
def countedDeclaration : NodeDeclaration where
  type := "Foo"
  queries := "query LIST_Foo {
    count(limit: $limit, offset: $offset)
    allFoo(limit: $limit, offset: $offset) { ...FooId }
  } fragment FooId on Foo { id }"

/-- An operation that asks for pages of the count and of the list. -/
def countedOperation (declared : List VariableDefinition) (selections : List Selection) :
    Operation where
  kind := .query
  name? := some "LIST_Foo"
  variableDefinitions := declared
  directives := []
  selections := [.field none "count" pageArguments [] none,
    .field none "allFoo" pageArguments [] (some selections)]

/-- The queries of the declaration. -/
def countedQueries : Document :=
  [.operation (countedOperation [] [.spread "FooId" []]), .fragment fooIdFragment]

/-- The operation that is compiled from them. -/
def compiledOperation : Operation :=
  countedOperation [{ name := "limit", type := .named "Int" },
    { name := "offset", type := .named "Int" }]
    [.field (some "remoteTypeName") "__typename" [] [] none, .spread "FooId" []]

/-- The document that is compiled from them. -/
def countedDocument : Document := [
  .operation compiledOperation,
  .fragment { fooIdFragment with selections := [.field (some "remoteId") "id" [] [] none] }]

set_option maxRecDepth 10000 in
lemma read_countedDeclaration :
    countedDeclaration.read 0 = .ok (countedQueries, fooIdFragment) := by
  have hscan : Token.scan? countedDeclaration.queries = some [.name "query", .name "LIST_Foo",
      .mark '\x7b', .name "count", .mark '(', .name "limit", .mark ':', .mark '$', .name "limit",
      .name "offset", .mark ':', .mark '$', .name "offset", .mark ')', .name "allFoo", .mark '(',
      .name "limit", .mark ':', .mark '$', .name "limit", .name "offset", .mark ':', .mark '$',
      .name "offset", .mark ')', .mark '\x7b', .ellipsis, .name "FooId", .mark '\x7d',
      .mark '\x7d', .name "fragment", .name "FooId", .name "on", .name "Foo", .mark '\x7b',
      .name "id", .mark '\x7d'] := by
    decide +kernel
  refine NodeDeclaration.read_eq_ok.mpr ⟨by decide, by decide, ?_, rfl, rfl⟩
  exact Document.parse?_of_scan hscan rfl

set_option maxRecDepth 10000 in
lemma compileQueries_counted :
    (compileQueries pagedSchema [countedDeclaration] [] defaultAliases).outcome
      = .ok [("Foo", countedDocument)] := by
  have hreferences : referenceFragments pagedSchema [countedDeclaration] = .ok fooReferences := by
    rw [referenceFragments, typeReferences, read_countedDeclaration]
    rfl
  refine compileQueries_eq_ok.mpr ⟨[], fooReferences, [], [("Foo", countedDocument)], rfl,
    hreferences, rfl, ?_, rfl⟩
  exact compileEach_cons_eq_ok.mpr ⟨countedQueries, fooIdFragment, countedDocument, [],
    read_countedDeclaration, rfl, rfl, rfl⟩

/-- The place of the count. -/
def countPlace : TypedPlace :=
  ⟨pagedSchema.operationType? .query, ⟨[], .field none "count" pageArguments [] none⟩⟩

/-- The place of the list. -/
def listPlace : TypedPlace :=
  ⟨pagedSchema.operationType? .query, ⟨[], .field none "allFoo" pageArguments []
    (some [.field (some "remoteTypeName") "__typename" [] [] none, .spread "FooId" []])⟩⟩

lemma typedPlaces_counted : compiledOperation.typedPlaces pagedSchema = [countPlace, listPlace] :=
  rfl

lemma step_count :
    TypedPlace.Step pagedSchema countedDocument.fragments [countPlace, listPlace] [listPlace] := by
  have hinside : countPlace.place.inside? countedDocument.fragments = some [] := rfl
  exact .enter [listPlace] hinside

lemma paged_list : listPlace.Paged pagedSchema := by
  have huses : listPlace.argumentUses pagedSchema
      = [⟨"limit", some (.named "Int")⟩, ⟨"offset", some (.named "Int")⟩] := by
    decide +kernel
  refine ⟨Nat.zero_le _, ?_⟩
  rw [huses]
  simp [limitOffsetNames]

/-- The count takes no arguments, so nothing is known of their types. -/
lemma not_paged_count : ¬ countPlace.Paged pagedSchema := by
  have huses : countPlace.argumentUses pagedSchema
      = [⟨"limit", none⟩, ⟨"offset", none⟩] := by
    decide +kernel
  rintro ⟨-, hpaged⟩
  rw [huses] at hpaged
  obtain ⟨type, htype⟩ := hpaged "limit" List.mem_cons_self
  simp at htype

/-- An operation that asks for pages of the count in vain and of the list by its arguments. -/
theorem exists_plan_counted :
    (compileQueries pagedSchema [countedDeclaration] [] defaultAliases).outcome
        = .ok [("Foo", countedDocument)]
      ∧ (countedDocument.operations.map (·.name?)).Nodup
      ∧ compiledOperation ∈ countedDocument.operations
      ∧ ReflTransGen (TypedPlace.Step pagedSchema countedDocument.fragments)
        (compiledOperation.typedPlaces pagedSchema) [listPlace]
      ∧ listPlace.Paged pagedSchema
      ∧ ∃ name place, compiledOperation.name? = some name
        ∧ Place.First countedDocument.fragments compiledOperation.places Place.Paged place
        ∧ PagePlan.make countedDocument name [] [.limitOffset, .relayForward]
          = .ok ⟨countedDocument, name, .limitOffset, place.fieldPath, []⟩ := by
  have hunique : (countedDocument.operations.map (·.name?)).Nodup := by decide
  have ho : compiledOperation ∈ countedDocument.operations := List.mem_cons_self
  have hreached : ReflTransGen (TypedPlace.Step pagedSchema countedDocument.fragments)
      (compiledOperation.typedPlaces pagedSchema) [listPlace] :=
    .single step_count
  have hdocument : Keyed.get? [("Foo", countedDocument)] "Foo" = some countedDocument := rfl
  exact ⟨compileQueries_counted, hunique, ho, hreached, paged_list,
    exists_plan compileQueries_counted hdocument hunique ho hreached paged_list []⟩

/-- **The first field that asks for pages at places of known types need not be the one that is
walked**: planning does not look at types. -/
theorem exists_untyped_plan : ∃ documents document o before place plan,
    (compileQueries pagedSchema [countedDeclaration] [] defaultAliases).outcome = .ok documents
      ∧ Keyed.get? documents "Foo" = some document
      ∧ (document.operations.map (·.name?)).Nodup ∧ document.fragmentNames.Nodup
      ∧ o ∈ document.operations ∧ o.name? = some "LIST_Foo"
      ∧ o.typedPlaces pagedSchema = [before, place] ∧ ¬ before.Paged pagedSchema
      ∧ TypedPlace.Step pagedSchema document.fragments [before, place] [place]
      ∧ place.Paged pagedSchema
      ∧ PagePlan.make document "LIST_Foo" [] [.limitOffset, .relayForward] = .ok plan
      ∧ plan.path ≠ place.place.fieldPath := by
  have hplan : PagePlan.make countedDocument "LIST_Foo" [] [.limitOffset, .relayForward]
      = .ok ⟨countedDocument, "LIST_Foo", .limitOffset, ["count"], []⟩ := by
    cbv
  exact ⟨_, countedDocument, compiledOperation, countPlace, listPlace, _, compileQueries_counted,
    rfl, by decide, by decide, List.mem_cons_self, rfl, typedPlaces_counted, not_paged_count,
    step_count, paged_list, hplan, by decide⟩

end RemoteNodes
