import Mathlib.Tactic
import RemoteNodes.Fetch.Prepared
import RemoteNodes.Fetch.Source
import RemoteNodes.Proofs.Fetch.Combine
import RemoteNodes.Proofs.Keyed
/-!
What a node keeps when its paginated fields are added. The object that an operation fetches for a
node is written over the node key by key, with all that stands below a key.

* `FieldFetch.answer`: the object that the pages of one operation put together.
* `Fetched`: the runs of all operations for a node, one after another.
* `Sourcing.outcome_addFields_of_fetched`: the node after them, as a map with changes over it.
* `Sourcing.addFields_keeps_iff`: **the exact condition** under which a result and a value of the
  node are kept: the last object that has the first key of the path has the same value there.
* `Sourcing.addFields_drops_fields`: two fields below one key, of which the second hides the first.
-/

namespace RemoteNodes

variable {σ : Type} {s : Sourcing σ} {d : NodeDefinition} {bindings : Keyed Json}
  {server server' : σ} {fetches : List FieldFetch}

/-- The pages that an operation gives for a field of a node. -/
structure FieldFetch where
  plan : PagePlan
  /-- The path of the node. -/
  root : List String
  /-- The path of the field in the node. -/
  rest : List String
  pages : List Page

namespace FieldFetch

/-- The result of all pages. -/
def result (f : FieldFetch) : Json := (PagePlan.stateAfter f.plan.strategy.start f.pages).result

/-- The object for the node in the last page, with the result of all pages in it. -/
def answer (f : FieldFetch) : Keyed Json :=
  (f.pages.getLast?.bind fun last =>
    ((last.data.atPath f.root).setAt f.rest f.result).fields?).getD []

/-- A page has an object for the node, whose keys are distinct, and a value for the field. -/
def Holds (f : FieldFetch) (page : Page) : Prop :=
  (∃ fields, page.data.atPath f.root = .obj fields ∧ (Keyed.keys fields).Nodup)
    ∧ page.value ≠ .null

/-- An operation fetches the pages, all of which have an object for the node. -/
structure Ran (s : Sourcing σ) (d : NodeDefinition) (bindings : Keyed Json) (operation : String)
    (server : σ) (f : FieldFetch) (server' : σ) : Prop where
  plan : PagePlan.make d.document operation bindings s.strategies = .ok f.plan
  root : d.document.nodePath operation = .ok f.root
  path : f.plan.path = f.root ++ f.rest
  below : f.rest ≠ []
  pages : (f.plan.pages s.execute s.pageLimit).run server = (⟨f.pages, none⟩, server')
  holds : ∀ page ∈ f.pages, f.Holds page

variable {operation : String} {f : FieldFetch}

/-- An operation has a last page, and its state has the result of all pages. -/
lemma Ran.exists_last (h : f.Ran s d bindings operation server server') :
    ∃ last ∈ f.pages, f.pages.getLast? = some last ∧ last.state.result = f.result := by
  obtain ⟨hwalk, -⟩ := PagePlan.run_pages_iff.mp h.pages
  obtain ⟨before, last, hpages⟩ := hwalk.exists_last f.plan.strategy.hasNext_start
  refine ⟨last, by simp [hpages], by simp [hpages], ?_⟩
  rw [result, hpages, PagePlan.stateAfter, List.foldl_concat]

lemma Ran.result_ne_null (h : f.Ran s d bindings operation server server') :
    f.result ≠ .null := by
  obtain ⟨hwalk, -⟩ := PagePlan.run_pages_iff.mp h.pages
  obtain ⟨last, hmem, -, hstate⟩ := h.exists_last
  rw [← hstate]
  exact hwalk.result_ne_null hmem

/-- The fetched object has distinct keys, and the result of all pages in it. -/
lemma Ran.answer_of_getLast? (h : f.Ran s d bindings operation server server') {last : Page}
    (hlast : f.pages.getLast? = some last) :
    (last.data.atPath f.root).setAt f.rest f.result = .obj f.answer
      ∧ (Keyed.keys f.answer).Nodup ∧ (Json.obj f.answer).atPath f.rest = f.result := by
  obtain ⟨hwalk, -⟩ := PagePlan.run_pages_iff.mp h.pages
  have hmem : last ∈ f.pages := List.mem_of_getLast? hlast
  obtain ⟨-, -, hvalue⟩ := hwalk.reads hmem
  obtain ⟨⟨fields, hfields, hnodup⟩, hne⟩ := h.holds last hmem
  obtain ⟨fields', hset, hnodup'⟩ := Json.exists_setAt_obj hnodup f.rest f.result
  have hanswer : f.answer = fields' := by
    rw [answer, hlast, Option.bind_some, hfields, hset]
    rfl
  obtain ⟨holder, hholder⟩ : ∃ holder, (Json.obj fields).holder? f.rest = some holder := by
    refine Json.exists_holder? h.below ?_
    rwa [hvalue, h.path, Json.atPath_append, hfields] at hne
  rw [hanswer, hfields]
  refine ⟨hset, hnodup', ?_⟩
  rw [← hset, Json.atPath_setAt hholder]

lemma Ran.nodup_answer (h : f.Ran s d bindings operation server server') :
    (Keyed.keys f.answer).Nodup := by
  obtain ⟨last, -, hlast, -⟩ := h.exists_last
  exact (h.answer_of_getLast? hlast).2.1

lemma Ran.atPath_answer (h : f.Ran s d bindings operation server server') :
    (Json.obj f.answer).atPath f.rest = f.result := by
  obtain ⟨last, -, hlast, -⟩ := h.exists_last
  exact (h.answer_of_getLast? hlast).2.2

/-- The fetched object has the first key of the path of the field. -/
lemma Ran.has_answer (h : f.Ran s d bindings operation server server') {key : String}
    {keys : List String} (hrest : f.rest = key :: keys) : Keyed.has f.answer key = true := by
  have hfound := h.atPath_answer
  rw [hrest, Json.atPath_obj] at hfound
  cases hget : Keyed.get? f.answer key with
  | none => simp [hget, h.result_ne_null.symm] at hfound
  | some value => simp [Keyed.has, hget]

/-- The last response has the fetched object once all pages are put together in it. -/
lemma Ran.atPath_root (h : f.Ran s d bindings operation server server') {last : Page}
    (hlast : f.pages.getLast? = some last) :
    (last.data.setAt f.plan.path f.result).atPath f.root = .obj f.answer := by
  rw [h.path, Json.atPath_setAt_append f.root h.below]
  exact (h.answer_of_getLast? hlast).1

/-- A node gets the fetched object written over it. -/
lemma Ran.outcome_addField (h : f.Ran s d bindings operation server server')
    (node : Keyed Json) :
    (s.addField d bindings node operation).outcome server
      = (.ok (Keyed.overlay node f.answer), server') := by
  obtain ⟨hwalk, hlimit⟩ := PagePlan.run_pages_iff.mp h.pages
  obtain ⟨last, hmem, hlast, hstate⟩ := h.exists_last
  obtain ⟨hobj, -, -⟩ := hwalk.reads hmem
  have hplan : (liftM (PagePlan.make d.document operation bindings s.strategies)
      : Except Fault PagePlan) = .ok f.plan := by
    rw [h.plan]
    rfl
  have hroot : (liftM (d.document.nodePath operation) : Except Fault (List String))
      = .ok f.root := by
    rw [h.root]
    rfl
  have hcombine : (f.plan.combine s.execute s.pageLimit).outcome server
      = (.ok (some (f.plan.putTogether last)), server') := by
    rw [hwalk.outcome_combine hlimit, hlast]
    rfl
  have hdata : (f.plan.putTogether last).key "data"
      = .ok (last.data.setAt f.plan.path f.result) := by
    rw [PagePlan.key_putTogether hobj, hstate]
  have htruthy : (last.data.setAt f.plan.path f.result).isTruthy = true := by
    have hpath : f.root ++ f.rest ≠ [] := by simp [h.below]
    refine Json.isTruthy_of_atPath hpath ?_
    rw [Json.atPath_append, h.atPath_root hlast, h.atPath_answer]
    exact h.result_ne_null
  rw [Sourcing.addField, Session.outcome_bind_lift hplan, Session.outcome_bind_ok hcombine]
  simp only
  rw [Session.outcome_bind_lift hdata, if_neg (by simp [htruthy]),
    Session.outcome_bind_lift hroot, Session.outcome_lift, h.atPath_root hlast, mergeFields,
    Json.or_obj]

end FieldFetch

/-- The operations fetch the objects one after another, each from the server that the one before it
leaves. -/
inductive Fetched (s : Sourcing σ) (d : NodeDefinition) (bindings : Keyed Json) :
    List String → σ → List FieldFetch → σ → Prop where
  | done (server : σ) : Fetched s d bindings [] server [] server
  | next {operation : String} {operations : List String} {server server₁ server₂ : σ}
      {f : FieldFetch} {fetches : List FieldFetch}
      (h : f.Ran s d bindings operation server server₁)
      (hrest : Fetched s d bindings operations server₁ fetches server₂) :
      Fetched s d bindings (operation :: operations) server (f :: fetches) server₂

namespace Fetched

variable {operations : List String}

lemma exists_ran (h : Fetched s d bindings operations server fetches server') {f : FieldFetch}
    (hf : f ∈ fetches) :
    ∃ operation server₁ server₂, f.Ran s d bindings operation server₁ server₂ := by
  induction h with
  | done server => cases hf
  | next h _ ih =>
      rcases List.mem_cons.mp hf with rfl | hf
      · exact ⟨_, _, _, h⟩
      · exact ih hf

lemma nodup_answer (h : Fetched s d bindings operations server fetches server') :
    ∀ f ∈ fetches, (Keyed.keys f.answer).Nodup := by
  intro f hf
  obtain ⟨_, _, _, hran⟩ := h.exists_ran hf
  exact hran.nodup_answer

/-- The fetched objects are written over a node in the order of the operations. -/
lemma outcome_foldlM (h : Fetched s d bindings operations server fetches server')
    (node : Keyed Json) :
    (operations.foldlM (s.addField d bindings) node).outcome server
      = (.ok (fetches.foldl (fun m f => Keyed.overlay m f.answer) node), server') := by
  induction h generalizing node with
  | done server => rfl
  | next h _ ih =>
      rw [List.foldlM_cons, Session.outcome_bind_ok (h.outcome_addField node), ih]
      rfl

/-- What stands below a key of a node with the fetched objects written over it: what stands there in
the last object that has the key, else in the node. -/
lemma atPath_foldl (h : Fetched s d bindings operations server fetches server')
    (node : Keyed Json) (key : String) (keys : List String) :
    (Json.obj (fetches.foldl (fun m f => Keyed.overlay m f.answer) node)).atPath (key :: keys)
      = (Json.obj ((Keyed.lastWith FieldFetch.answer key fetches).elim node
          FieldFetch.answer)).atPath (key :: keys) := by
  rw [Json.atPath_obj, Json.atPath_obj, Keyed.get?_foldl_overlay h.nodup_answer]

/-- Where the result of an operation is looked for once all fetched objects are written over a node:
in the last one that has its key, from its own on. -/
lemma atPath_foldl_of_ran {before after : List FieldFetch} {f : FieldFetch}
    (h : Fetched s d bindings operations server (before ++ f :: after) server')
    (node : Keyed Json) {key : String} {keys : List String} (hrest : f.rest = key :: keys) :
    (Json.obj ((before ++ f :: after).foldl (fun m f => Keyed.overlay m f.answer) node)).atPath
        f.rest
      = (Json.obj ((Keyed.lastWith FieldFetch.answer key after).getD f).answer).atPath f.rest := by
  obtain ⟨_, _, _, hran⟩ := h.exists_ran (f := f) (by simp)
  rw [hrest, h.atPath_foldl, Keyed.lastWith_append_cons (hran.has_answer hrest)]
  cases Keyed.lastWith FieldFetch.answer key after <;> rfl

end Fetched

namespace Sourcing

lemma exists_fields_of_pickId {node : Json} {values : Keyed Json}
    (h : d.pickId node = .ok values) : ∃ fields, node = .obj fields := by
  obtain ⟨fragment, -, h⟩ := bind_eq_ok.mp h
  cases node with
  | obj fields => exact ⟨fields, rfl⟩
  | null | bool _ | int _ | real _ | str _ | arr _ => cases h

/-- A node gets all fetched objects written over it. -/
theorem outcome_addFields_of_fetched {fields values : Keyed Json}
    (hvalues : d.pickId (.obj fields) = .ok values)
    (h : Fetched s d (nodeVariables values) d.document.fieldOperations server fetches server') :
    (s.addFields d (.obj fields)).outcome server
      = (.ok (.obj (fetches.foldl (fun m f => Keyed.overlay m f.answer) fields)), server') := by
  cases hempty : d.document.fieldOperations with
  | nil =>
      rw [hempty] at h
      cases h
      exact outcome_addFields hempty _ _
  | cons operation operations =>
      have hfold := h.outcome_foldlM fields
      rw [hempty] at hfold
      rw [addFields]
      simp only [hempty, List.isEmpty_cons, Bool.false_eq_true, if_false]
      have hfields : (Json.obj fields).fields = .ok fields := rfl
      rw [Session.outcome_bind_lift hvalues, Session.outcome_bind_lift hfields,
        Session.outcome_bind_ok hfold]
      rfl

/-- **What a node keeps.** The result of an operation stands at its path exactly if the last object
that is fetched after its own and has the first key of the path has that result there too. What the
node had at a path is still there exactly if the last fetched object that has the first key of the
path has the same there. -/
theorem addFields_keeps_iff (s : Sourcing σ) (d : NodeDefinition) (node : Json)
    (values : Keyed Json) (server server' : σ) (fetches : List FieldFetch)
    (hvalues : d.pickId node = .ok values)
    (hfetched : Fetched s d (nodeVariables values) d.document.fieldOperations server fetches
      server') :
    ∃ record, (s.addFields d node).outcome server = (.ok record, server')
      ∧ (∀ before f after key keys, fetches = before ++ f :: after → f.rest = key :: keys →
          (record.atPath f.rest = f.result ↔
            ∀ later, Keyed.lastWith FieldFetch.answer key after = some later →
              (Json.obj later.answer).atPath f.rest = f.result))
      ∧ ∀ key keys,
          record.atPath (key :: keys) = node.atPath (key :: keys) ↔
            ∀ last, Keyed.lastWith FieldFetch.answer key fetches = some last →
              (Json.obj last.answer).atPath (key :: keys) = node.atPath (key :: keys) := by
  obtain ⟨fields, rfl⟩ := exists_fields_of_pickId hvalues
  refine ⟨_, outcome_addFields_of_fetched hvalues hfetched, ?_, fun key keys => ?_⟩
  · rintro before f after key keys rfl hrest
    rw [hfetched.atPath_foldl_of_ran fields hrest]
    obtain ⟨_, _, _, hran⟩ := hfetched.exists_ran (f := f) (by simp)
    cases Keyed.lastWith FieldFetch.answer key after with
    | none => simp [hran.atPath_answer]
    | some later => simp
  · rw [hfetched.atPath_foldl]
    cases Keyed.lastWith FieldFetch.answer key fetches with
    | none => simp
    | some last => simp

/-! ### Two fields below one key -/

/-- The field of the type name, under its alias. -/
def typeNameField : Selection := .field (some "remoteTypeName") "__typename" [] [] none

/-- A page of a field by limit and offset. -/
def pageField (name : String) (selections : List Selection) : Selection :=
  .field none name [⟨"limit", .variable "limit"⟩, ⟨"offset", .variable "offset"⟩] []
    (some (typeNameField :: selections))

/-- The operation for a paginated field of an author. -/
def authorOperation (name field : String) : Definition :=
  .operation
    { kind := .query, name? := some name,
      variableDefinitions := [{ name := "id", type := .nonNull (.named "ID") },
        { name := "limit", type := .named "Int" }, { name := "offset", type := .named "Int" }],
      directives := [],
      selections := [.field none "foo" [⟨"id", .variable "id"⟩] [] (some [typeNameField,
        .plain "author" (some [typeNameField, pageField field [.plain "id"]])])] }

/-- A compiled document with two paginated fields of an author and the name of the author. -/
def authorDocument : Document :=
  [.operation
    { kind := .query, name? := some "LIST_Foo",
      variableDefinitions := [{ name := "limit", type := .named "Int" },
        { name := "offset", type := .named "Int" }],
      directives := [],
      selections := [pageField "allFoo" [.spread "FooId" [], .spread "Foo" []]] },
    authorOperation "PAGINATE_posts" "posts", authorOperation "PAGINATE_comments" "comments",
    .fragment
      { name := "FooId", condition := "Foo",
        selections := [.field (some "remoteId") "id" [] [] none] },
    .fragment
      { name := "Foo", condition := "Foo",
        selections := [.plain "author" (some [typeNameField, .plain "name"])] }]

/-- The definition with that document. -/
def authorDefinition : NodeDefinition :=
  { type := "Foo", document := authorDocument, idFragmentName := "FooId" }

/-- A node of it, as a listing gives it. -/
def authorNode : Json :=
  .obj [("remoteTypeName", .str "Foo"), ("remoteId", .str "1"),
    ("author", .obj [("remoteTypeName", .str "Author"), ("name", .str "A")])]

/-- A response with one item of a paginated field of an author. -/
def authorResponse (field id : String) : Json :=
  .obj [("data", .obj [("foo", .obj [("remoteTypeName", .str "Foo"),
    ("author", .obj [("remoteTypeName", .str "Author"),
      (field, .arr [.obj [("remoteTypeName", .str "Post"), ("id", .str id)]])])])])]

/-- A server with one page of each of the two fields. -/
def authorServer : PreparedServer :=
  { queues := [("PAGINATE_posts", [authorResponse "posts" "p"]),
      ("PAGINATE_comments", [authorResponse "comments" "c"])] }

/-- Fetching from prepared servers. -/
def authorSourcing : Sourcing PreparedServer :=
  { definitions := [("Foo", authorDefinition)], execute := PreparedServer.answer, pageLimit := 2 }

/-- The plan for one of the fields. -/
def authorPlan (operation field : String) : PagePlan :=
  { document := authorDocument, operation, strategy := .limitOffset,
    path := ["foo", "author", field], bindings := [("id", .str "1")] }

/-- The run of one of the operations. -/
def authorRun (operation field : String) (server : PreparedServer) :
    Harvest Page × PreparedServer :=
  ((authorPlan operation field).pages PreparedServer.answer 2).run server

/-- What one of the operations gives. -/
def authorFetch (operation field : String) (server : PreparedServer) : FieldFetch :=
  { plan := authorPlan operation field, root := ["foo"], rest := ["author", field],
    pages := (authorRun operation field server).1.items }

/-- The server after the posts are fetched from it. -/
def commentsServer : PreparedServer := (authorRun "PAGINATE_posts" "posts" authorServer).2

/-- What is fetched for the node: its posts and then its comments. -/
def authorFetches : List FieldFetch :=
  [authorFetch "PAGINATE_posts" "posts" authorServer,
    authorFetch "PAGINATE_comments" "comments" commentsServer]

/-- The server after all of it. -/
def emptyServer : PreparedServer := (authorRun "PAGINATE_comments" "comments" commentsServer).2

lemma pickId_authorNode : authorDefinition.pickId authorNode = .ok [("id", .str "1")] := by
  rfl

lemma fetched_author :
    Fetched authorSourcing authorDefinition (nodeVariables [("id", .str "1")])
      authorDocument.fieldOperations authorServer authorFetches emptyServer := by
  have hoperations : authorDocument.fieldOperations = ["PAGINATE_posts", "PAGINATE_comments"] := by
    decide +kernel
  have hplan₁ : PagePlan.make authorDocument "PAGINATE_posts" [("id", .str "1")]
      [.limitOffset, .relayForward] = .ok (authorPlan "PAGINATE_posts" "posts") := by
    cbv
  have hplan₂ : PagePlan.make authorDocument "PAGINATE_comments" [("id", .str "1")]
      [.limitOffset, .relayForward] = .ok (authorPlan "PAGINATE_comments" "comments") := by
    cbv
  have hroot₁ : authorDocument.nodePath "PAGINATE_posts" = .ok ["foo"] := by
    cbv
  have hroot₂ : authorDocument.nodePath "PAGINATE_comments" = .ok ["foo"] := by
    cbv
  rw [hoperations]
  refine .next ⟨hplan₁, hroot₁, rfl, List.cons_ne_nil _ _, rfl, fun page hpage => ?_⟩
    (.next ⟨hplan₂, hroot₂, rfl, List.cons_ne_nil _ _, rfl, fun page hpage => ?_⟩ (.done _))
  · cases List.mem_singleton.mp hpage
    exact ⟨⟨_, rfl, by decide⟩, fun hnull => by cases hnull⟩
  · cases List.mem_singleton.mp hpage
    exact ⟨⟨_, rfl, by decide⟩, fun hnull => by cases hnull⟩

/-- No path of a field is a prefix of the other, but the node ends with the comments of its author
only: the posts, which were fetched before them, and the name that it had are lost. -/
theorem addFields_drops_fields :
    authorDefinition.pickId authorNode = .ok [("id", .str "1")]
      ∧ Fetched authorSourcing authorDefinition (nodeVariables [("id", .str "1")])
        authorDocument.fieldOperations authorServer authorFetches emptyServer
      ∧ authorFetches.map FieldFetch.rest = [["author", "posts"], ["author", "comments"]]
      ∧ authorFetches.map FieldFetch.result
        = [.arr [.obj [("remoteTypeName", .str "Post"), ("id", .str "p")]],
          .arr [.obj [("remoteTypeName", .str "Post"), ("id", .str "c")]]]
      ∧ authorNode.atPath ["author", "name"] = .str "A"
      ∧ ∃ record, (authorSourcing.addFields authorDefinition authorNode).outcome authorServer
          = (.ok record, emptyServer)
        ∧ record.atPath ["author", "posts"] = .null ∧ record.atPath ["author", "name"] = .null :=
  ⟨rfl, fetched_author, rfl, rfl, rfl, _,
    outcome_addFields_of_fetched pickId_authorNode fetched_author, rfl, rfl⟩

/-- The condition at a node with two fields below one key, whose posts and whose name do not meet
it. -/
theorem addFields_keeps_iff_author :
    authorDefinition.pickId authorNode = .ok [("id", .str "1")]
      ∧ Fetched authorSourcing authorDefinition (nodeVariables [("id", .str "1")])
        authorDocument.fieldOperations authorServer authorFetches emptyServer
      ∧ ∃ record, (authorSourcing.addFields authorDefinition authorNode).outcome authorServer
          = (.ok record, emptyServer)
        ∧ ∀ key keys,
          record.atPath (key :: keys) = authorNode.atPath (key :: keys) ↔
            ∀ last, Keyed.lastWith FieldFetch.answer key authorFetches = some last →
              (Json.obj last.answer).atPath (key :: keys) = authorNode.atPath (key :: keys) := by
  obtain ⟨record, hrecord, -, hkept⟩ := addFields_keeps_iff authorSourcing authorDefinition
    authorNode [("id", .str "1")] authorServer emptyServer authorFetches pickId_authorNode
    fetched_author
  exact ⟨pickId_authorNode, fetched_author, record, hrecord, hkept⟩

end Sourcing

end RemoteNodes
