import Mathlib.Tactic
import RemoteNodes.Proofs.Document.Compilation
import RemoteNodes.Proofs.Fetch.Delivered
import RemoteNodes.Proofs.Fetch.Merging
import RemoteNodes.Proofs.Fetch.Nullable
import RemoteNodes.Proofs.Fetch.Outcomes
import RemoteNodes.Proofs.Fetch.Planned
/-!
What sourcing can fail with when a server answers with nulls wherever a schema lets it. Nulls are
harmless except in two places of listed pages: an edge that is null, and a node that is null of a
type without paginated fields.

* `Fault.IsOwn`: the faults of kinds of their own.
* `PagePlan.Answers`: the responses, with nulls anywhere.
* `Sourcing.Guarded`: what must be known besides them.
* `Sourcing.within_addFields`, `Sourcing.within_allNodes`: nodes with their paginated fields and all
  nodes of a type; `Sourcing.source_failsIn`: **sourcing fails with faults of these kinds only**.
* `Sourcing.source_malformed`: a null node with which it fails in another way.
-/

namespace RemoteNodes

/-- The faults of kinds of their own: of the configuration, of a node that cannot be identified, and
of a query that gives no data. -/
def Fault.IsOwn : Fault → Prop
  | .configuration _ | .node _ | .query _ _ => True
  | _ => False

/-- A fault of a kind of its own, or the end of a walk that would have gone on. -/
def Fault.IsExpected (fault : Fault) : Prop := fault = .tooManyPages ∨ fault.IsOwn

lemma Fault.IsOwn.expected {fault : Fault} (h : fault.IsOwn) : fault.IsExpected := .inr h

namespace PagePlan

variable {σ : Type} {plan : PagePlan} {state : PageState} {response : Json} {execute : Executor σ}

/-- The data of a response. -/
def dataOf (response : Json) : Json := (response.field? "data").getD .null

/-- The value at the path of a plan in a response. -/
def valueIn (plan : PagePlan) (response : Json) : Json := (dataOf response).atPath plan.path

/-- A response whose data is an object, in which the path of a plan leads to a page. -/
structure Answers (plan : PagePlan) (response : Json) : Prop where
  data : ∃ fields, response = .obj fields ∧ ∃ inner, Keyed.get? fields "data" = some (.obj inner)
  value : plan.strategy.allows (plan.valueIn response) = true

/-- Such a response holds a page. -/
lemma Answers.exists_page (h : plan.Answers response) (hready : plan.strategy.Ready state) :
    ∃ page, plan.page state response = .ok page := by
  obtain ⟨state', hstate⟩ := PageStrategy.exists_addPage hready h.value
  obtain ⟨fields, rfl, inner, hinner⟩ := h.data
  refine ⟨⟨.obj fields, plan.valueIn (.obj fields), state'⟩, page_eq_ok.mpr
    ⟨rfl, ⟨fields, rfl⟩, ?_, rfl, hstate⟩⟩
  simp [Page.data, Json.field?, hinner]

/-- What a walk gathers from such responses. -/
lemma within_walk_of_answers {α : Type} {Q : α → Prop} {Answer : Json → Prop}
    {pick : Page → StateM σ (Harvest α)}
    (hanswer : ∀ state, Session.Within Fault.IsOwn
      (fun response => plan.Answers response ∧ Answer response) (execute (plan.request state)))
    (hpick : ∀ page, plan.Answers page.response → Answer page.response →
      page.value = plan.valueIn page.response →
      ∀ server, Harvest.Within Fault.IsExpected Q ((pick page).run server).1)
    (limit : Nat) (server : σ) :
    Harvest.Within Fault.IsExpected Q
      ((plan.walk execute pick limit plan.strategy.start).run server).1 := by
  refine within_walk plan.strategy.Ready
    (fun state => (hanswer state).mono (fun _ => Fault.IsOwn.expected) fun _ => id)
    (fun state response hready hresponse fault hfault => ?_)
    (fun state response page hpage => ?_) (fun state response page hresponse hpage => ?_)
    (.inl rfl) limit (PageStrategy.ready_start plan.strategy) server
  · obtain ⟨page, hpage⟩ := hresponse.1.exists_page hready
    cases hfault.symm.trans hpage
  · obtain ⟨-, -, -, -, hadd⟩ := page_eq_ok.mp hpage
    exact PageStrategy.ready_of_addPage hadd
  · obtain ⟨rfl, -, -, hvalue, -⟩ := page_eq_ok.mp hpage
    exact hpick page hresponse.1 hresponse.2 hvalue

end PagePlan

namespace Sourcing

variable {σ : Type} {s : Sourcing σ} {d : NodeDefinition}

/-- Whether all responses to a request have a property. -/
def Gives (s : Sourcing σ) (request : Request) (Answer : Json → Prop) : Prop :=
  ∀ server response, ((s.execute request).outcome server).1 = .ok response → Answer response

/-- The server answers every request for a page, with such a response or with a fault of a kind of
its own. -/
def Answered (s : Sourcing σ) : Prop :=
  ∀ p ∈ s.definitions, ∀ operation bindings plan,
    PagePlan.make p.2.document operation bindings s.strategies = .ok plan →
    ∀ state, Session.Within Fault.IsOwn plan.Answers (s.execute (plan.request state))

/-- What must be known besides for no null to do harm. -/
structure Guarded (s : Sourcing σ) : Prop where
  /-- The documents hold the ID fragments. -/
  idFragment : ∀ p ∈ s.definitions, ∃ f, p.2.idFragment = .ok f
  /-- Pages of nodes have no null edges, and if the nodes get no paginated fields also no null
  nodes. -/
  listed : ∀ p ∈ s.definitions, ∀ operation ∈ p.2.document.listOperations, ∀ plan,
    PagePlan.make p.2.document operation [] s.strategies = .ok plan →
    ∀ state, s.Gives (plan.request state) fun response =>
      plan.strategy.hasEdges (plan.valueIn response) = true
        ∧ (p.2.document.fieldOperations = [] → ∀ nodes,
          plan.strategy.items (plan.valueIn response) = .ok nodes → .null ∉ nodes)
  /-- A paginated field of a node is not the node itself, which is answered by an object or null. -/
  paginated : ∀ p ∈ s.definitions, ∀ operation ∈ p.2.document.fieldOperations,
    ∀ bindings plan root, PagePlan.make p.2.document operation bindings s.strategies = .ok plan →
    p.2.document.nodePath operation = .ok root → ¬ plan.path <+: root
      ∧ ∀ state, s.Gives (plan.request state) fun response =>
        ((PagePlan.dataOf response).atPath root).isObject = true

/-! ### Paginated fields -/

/-- The last response of a walk with all pages put together in it. -/
lemma within_combine {plan : PagePlan} {execute : Executor σ} {Answer : Json → Prop}
    (hanswer : ∀ state, Session.Within Fault.IsOwn
      (fun response => plan.Answers response ∧ Answer response) (execute (plan.request state)))
    (limit : Nat) :
    Session.Within Fault.IsExpected
      (fun response? => ∀ response, response? = some response → ∃ page : Page,
        plan.Answers page.response ∧ Answer page.response ∧ response = plan.putTogether page)
      (plan.combine execute limit) := by
  have hpages : Session.Within Fault.IsExpected
      (fun pages => ∀ page ∈ pages, plan.Answers page.response ∧ Answer page.response)
      (Session.gather (plan.pages execute limit)) := by
    refine .gather (PagePlan.within_walk_of_answers hanswer (fun page hanswers hanswer _ _ => ?_)
      limit)
    exact ⟨fun _ h => (nomatch h), List.forall_mem_singleton.mpr ⟨hanswers, hanswer⟩⟩
  refine hpages.bind fun pages hpages => .pure fun response hresponse => ?_
  obtain ⟨page, hlast, rfl⟩ := Option.map_eq_some_iff.mp hresponse
  obtain ⟨hanswers, hanswer⟩ := hpages page (List.mem_of_getLast? hlast)
  exact ⟨page, hanswers, hanswer, rfl⟩

lemma mergeFields_of_isObject {fetched : Json} (h : fetched.isObject = true)
    (node : Keyed Json) : ∃ fields, mergeFields node fetched = .ok fields := by
  obtain ⟨fields, hfields, -⟩ := Json.exists_of_isObject h
  exact ⟨_, by rw [mergeFields, hfields]⟩

/-- Fetching a paginated field of a node fails only as it is meant to. -/
lemma within_addField {p : String × NodeDefinition} (hp : p ∈ s.definitions)
    (hanswered : s.Answered) (hguarded : s.Guarded) (bindings node : Keyed Json)
    {operation : String}
    (hoperation : operation ∈ p.2.document.fieldOperations) :
    Session.Within Fault.IsExpected (fun _ => True) (s.addField p.2 bindings node operation) := by
  rw [addField]
  refine (Session.Within.lift_mapError fun _ => .inr trivial).bind fun plan hplan => ?_
  have hanswer (state : PageState) : Session.Within Fault.IsOwn (fun response =>
      plan.Answers response ∧ ∀ root, p.2.document.nodePath operation = .ok root →
        ((PagePlan.dataOf response).atPath root).isObject = true)
      (s.execute (plan.request state)) := by
    intro server
    obtain ⟨hfails, hanswers⟩ := hanswered p hp operation bindings plan hplan state server
    refine ⟨hfails, fun response hresponse => ⟨hanswers response hresponse, fun root hroot => ?_⟩⟩
    obtain ⟨-, hnode⟩ := hguarded.paginated p hp operation hoperation bindings plan root hplan hroot
    exact hnode state server response hresponse
  refine (within_combine hanswer s.pageLimit).bind fun response? hresponse => ?_
  cases response? with
  | none => exact .pure trivial
  | some response =>
      obtain ⟨page, hanswers, hnode, rfl⟩ := hresponse response rfl
      obtain ⟨fields, hobj, -⟩ := hanswers.data
      have hdata : (plan.putTogether page).key "data"
          = .ok (page.data.setAt plan.path page.state.result) :=
        PagePlan.key_putTogether ⟨fields, hobj⟩
      refine (Session.Within.lift (Q := (· = page.data.setAt plan.path page.state.result))
        (by rw [hdata]; exact .ok) fun data h => Except.ok.inj (h.symm.trans hdata)).bind ?_
      rintro _ rfl
      split
      · exact .pure trivial
      refine (Session.Within.lift_mapError fun _ => .inr trivial).bind fun root hroot => ?_
      obtain ⟨hbelow, -⟩ :=
        hguarded.paginated p hp operation hoperation bindings plan root hplan hroot
      have hobject := Json.isObject_atPath_setAt hbelow (hnode root hroot) page.state.result
      obtain ⟨merged, hmerged⟩ := mergeFields_of_isObject hobject node
      refine Session.Within.of_ok fun server => ⟨merged, ?_, trivial⟩
      exact hmerged

/-- Picking the identifying values of a node fails only if the node cannot be identified, once there
is an ID fragment; and they are picked out of objects. -/
lemma pickId_failsIn {d : NodeDefinition} (hfragment : ∃ f, d.idFragment = .ok f) (node : Json) :
    FailsIn Fault.IsOwn (d.pickId node) := by
  obtain ⟨f, hf⟩ := hfragment
  rw [NodeDefinition.pickId, hf]
  exact .mapError fun _ => trivial

/-- A node gets its paginated fields and then is an object, whatever it was; without paginated
fields it is left as it is. -/
lemma within_addFields {p : String × NodeDefinition} (hp : p ∈ s.definitions)
    (hanswered : s.Answered) (hguarded : s.Guarded) {node : Json} (hnode : node.isObject = true)
    (hnull : p.2.document.fieldOperations = [] → node ≠ .null) :
    Session.Within Fault.IsExpected (fun node => ∃ fields, node = .obj fields)
      (s.addFields p.2 node) := by
  rw [addFields]
  split
  · rename_i hnone
    rw [List.isEmpty_iff] at hnone
    exact .pure ((Json.isObject_iff.mp hnode).resolve_left (hnull hnone))
  refine (Session.Within.lift (Q := fun values => p.2.pickId node = .ok values)
    ((pickId_failsIn (hguarded.idFragment p hp) node).mono fun _ => Fault.IsOwn.expected)
    fun _ => id).bind fun values hvalues => ?_
  obtain ⟨fields, rfl⟩ := exists_fields_of_pickId hvalues
  refine (Session.Within.lift (Q := fun _ => True) .ok fun _ _ => trivial).bind fun before _ => ?_
  refine (Session.Within.foldlM (Q := fun _ => True) trivial fun operation hoperation node _ =>
    within_addField hp hanswered hguarded _ node hoperation).bind fun merged _ => ?_
  exact .pure ⟨merged, rfl⟩

/-- The nodes of a page without null edges. -/
lemma within_pageNodes {p : String × NodeDefinition} (hp : p ∈ s.definitions)
    (hanswered : s.Answered) (hguarded : s.Guarded) {plan : PagePlan} {page : Page}
    (hallows : plan.strategy.allows page.value = true)
    (hedges : plan.strategy.hasEdges page.value = true)
    (hnull : p.2.document.fieldOperations = [] → ∀ nodes,
      plan.strategy.items page.value = .ok nodes → .null ∉ nodes) (server : σ) :
    Harvest.Within Fault.IsExpected (fun node => ∃ fields, node = .obj fields)
      ((s.pageNodes p.2 plan page).run server).1 := by
  obtain ⟨nodes, hnodes, hobjects⟩ := (PageStrategy.exists_items_iff hallows).mp hedges
  rw [pageNodes, hnodes]
  refine Harvest.within_each (fun node hnode => ?_) server
  refine within_addFields hp hanswered hguarded (hobjects node hnode) fun hnone => ?_
  rintro rfl
  exact hnull hnone nodes hnodes hnode

lemma mem_definitions {type : String} (hd : s.definition type = .ok d) :
    (type, d) ∈ s.definitions := by
  rw [definition] at hd
  split at hd
  · rename_i hget
    cases hd
    exact Keyed.mem_of_get? hget
  · cases hd

/-- The nodes of an operation that lists them. -/
lemma within_nodeList (hanswered : s.Answered) (hguarded : s.Guarded) {type operation : String}
    {d : NodeDefinition} (hd : s.definition type = .ok d)
    (hoperation : operation ∈ d.document.listOperations) (server : σ) :
    Harvest.Within Fault.IsExpected (fun node => ∃ fields, node = .obj fields)
      ((s.nodeList type operation).run server).1 := by
  have hp := mem_definitions hd
  simp only [nodeList]
  split
  · exact Harvest.within_fault (.inr trivial)
  · rename_i d' plan hprepared
    obtain ⟨_, hd', hprepared⟩ := bind_eq_ok.mp hprepared
    obtain ⟨_, hplan, heq⟩ := bind_eq_ok.mp hprepared
    cases heq
    obtain rfl := Except.ok.inj (hd.symm.trans hd')
    have hanswer (state : PageState) : Session.Within Fault.IsOwn (fun response =>
        plan.Answers response ∧ plan.strategy.hasEdges (plan.valueIn response) = true
          ∧ (d.document.fieldOperations = [] → ∀ nodes,
            plan.strategy.items (plan.valueIn response) = .ok nodes → .null ∉ nodes))
        (s.execute (plan.request state)) := by
      intro server
      obtain ⟨hfails, hanswers⟩ := hanswered _ hp operation [] plan hplan state server
      refine ⟨hfails, fun response hresponse => ⟨hanswers response hresponse, ?_⟩⟩
      exact hguarded.listed _ hp operation hoperation plan hplan state server response hresponse
    refine PagePlan.within_walk_of_answers hanswer (fun page hanswers hnulls hvalue => ?_)
      s.pageLimit server
    rw [← hvalue] at hnulls
    exact within_pageNodes hp hanswered hguarded (hvalue ▸ hanswers.value) hnulls.1 hnulls.2

/-- All nodes of a type are objects, unless a fault of an expected kind ends the work. -/
theorem within_allNodes (hanswered : s.Answered) (hguarded : s.Guarded) (type : String) :
    Session.Within Fault.IsExpected (fun nodes => ∀ node ∈ nodes, ∃ fields, node = .obj fields)
      (s.allNodes type) := by
  rw [allNodes]
  refine (Session.Within.lift_mapError fun _ => .inr trivial).bind fun d hd => ?_
  refine .gather (Harvest.within_flatEach fun operation hoperation server => ?_)
  exact within_nodeList hanswered hguarded hd hoperation server

/-! ### All types -/

/-- The record of an object is made unless the object cannot be identified. -/
lemma record_failsIn {p : String × NodeDefinition} (hp : p ∈ s.definitions) (hguarded : s.Guarded)
    (fields : Keyed Json) : FailsIn Fault.IsOwn (s.record p.1 p.2 (.obj fields)) := by
  rw [record_obj]
  split
  · exact ((pickId_failsIn (hguarded.idFragment p hp) _).bind fun _ _ => .pure).map
  · exact .ok

lemma records_within {nodes : List (String × NodeDefinition × Json)} (hguarded : s.Guarded)
    (hnodes : ∀ n ∈ nodes, (n.1, n.2.1) ∈ s.definitions ∧ ∃ fields, n.2.2 = .obj fields) :
    (s.records nodes).Within Fault.IsOwn fun _ => True := by
  induction nodes with
  | nil => exact Harvest.within_nil
  | cons n nodes ih =>
      obtain ⟨type, d, node⟩ := n
      obtain ⟨⟨hd, hobject⟩, hrest⟩ := List.forall_mem_cons.mp hnodes
      obtain ⟨fields, rfl⟩ : ∃ fields, node = .obj fields := hobject
      rw [records]
      cases hrecord : s.record type d (.obj fields) with
      | error fault => exact Harvest.within_fault (record_failsIn hd hguarded fields fault hrecord)
      | ok record? => exact ⟨(ih hrest).1, fun _ _ => trivial⟩

/-- What each type comes to. -/
lemma fetchTypes_within (hanswered : s.Answered) (hguarded : s.Guarded)
    (ds : List (String × NodeDefinition)) (server : σ) :
    ∀ r ∈ ((s.fetchTypes ds).run server).1, (r.1, r.2.1) ∈ ds ∧ FailsIn Fault.IsExpected r.2.2
      ∧ ∀ nodes, r.2.2 = .ok nodes → ∀ node ∈ nodes, ∃ fields, node = .obj fields := by
  induction ds generalizing server with
  | nil => exact List.forall_mem_nil _
  | cons p ds ih =>
      obtain ⟨hfails, hnodes⟩ := within_allNodes hanswered hguarded p.1 server
      rcases hp : (s.allNodes p.1).run.run server with ⟨outcome, server'⟩
      rw [Session.outcome, hp] at hfails hnodes
      rw [fetchTypes, run_bind_of_eq hp]
      refine List.forall_mem_cons.mpr ⟨⟨List.mem_cons_self, hfails, hnodes⟩, fun r hr => ?_⟩
      obtain ⟨hmem, hrest⟩ := ih server' r hr
      exact ⟨List.mem_cons_of_mem _ hmem, hrest⟩

/-- **With nulls anywhere in the answers sourcing ends with a fault of a kind of its own, if it
fails**, or where a walk that would have gone on is cut. -/
theorem source_failsIn (s : Sourcing σ) (hanswered : s.Answered) (hguarded : s.Guarded)
    (server : σ) (fault : Fault) (h : (s.source.run server).1.1.fault? = some fault) :
    fault = .tooManyPages ∨ fault.IsOwn := by
  have htypes := fetchTypes_within hanswered hguarded s.definitions server
  rw [source_eq, StateT.run_map] at h
  change (s.deliver ((s.fetchTypes s.definitions).run server).1).1.fault? = some fault at h
  generalize ((s.fetchTypes s.definitions).run server).1 = outcomes at htypes h
  simp only [deliver] at h
  split at h
  · rename_i first hfirst
    obtain rfl : first = fault := Option.some.inj h
    refine FailsIn.mapM (P := Fault.IsExpected) (fun r hr => ?_) first hfirst
    exact (htypes r hr).2.1.bind fun _ _ => .pure
  · rename_i types hok
    refine .inr ((records_within hguarded fun n hn => ?_).1 fault h)
    obtain ⟨⟨type, d, nodes⟩, htype, hn⟩ := List.mem_flatMap.mp hn
    obtain ⟨node, hnode, rfl⟩ := List.mem_map.mp hn
    obtain ⟨⟨type', d', outcome⟩, hr, hfetched⟩ := (mem_of_mapM hok).2 _ htype
    obtain ⟨nodes', hnodes, heq⟩ := bind_eq_ok.mp hfetched
    cases heq
    obtain ⟨hmem, -, hobjects⟩ := htypes _ hr
    exact ⟨hmem, hobjects nodes hnodes node hnode⟩

/-! ### A node that is null -/

/-- The response of a server that lists one node, which is null. -/
def nullAnswer : Json := .obj [("data", .obj [("allFoo", .arr [.null])])]

/-- Fetching nodes of one type from a server that gives every request this response. -/
def nullSourcing (d : NodeDefinition) : Sourcing Unit where
  definitions := [(d.type, d)]
  execute := .answering fun _ => .ok nullAnswer
  strategies := [.limitOffset]
  pageLimit := 1

/-- The plan to list the nodes. -/
def nullPlan (d : NodeDefinition) : PagePlan where
  document := d.document
  operation := "LIST_Foo"
  strategy := .limitOffset
  path := ["allFoo"]
  bindings := []

/-- The page with the null node. -/
def nullPage : Page where
  response := nullAnswer
  value := .arr [.null]
  state := ⟨[("limit", .int 100), ("offset", .int 100)], .arr [.null], false⟩

variable {d : NodeDefinition}

/-- With one strategy, a plan has this strategy and the path of the first field that fits it. -/
lemma plan_of_make {document : Document} {operation : String} {bindings : Keyed Json}
    {plan : PagePlan}
    (h : PagePlan.make document operation bindings [.limitOffset] = .ok plan) :
    plan.strategy = .limitOffset ∧ document.fieldPath operation
      (fun s => PageStrategy.limitOffset.accepts s.argumentVariables) = .ok plan.path := by
  obtain ⟨names, -, h⟩ := bind_eq_ok.mp h
  obtain ⟨strategy, hstrategy, h⟩ := bind_eq_ok.mp h
  obtain ⟨path, hpath, h⟩ := bind_eq_ok.mp h
  obtain rfl : strategy = .limitOffset := by
    rw [PageStrategy.resolve] at hstrategy
    split at hstrategy
    · rename_i found hfound
      cases hstrategy
      exact List.mem_singleton.mp (List.mem_of_find?_eq_some hfound)
    · cases hstrategy
  split at h
  · cases h
  · cases h
    exact ⟨rfl, hpath⟩

/-- Nulls are all that the server gives besides one list of nodes. -/
lemma answered_null : (nullSourcing d).Answered := by
  rintro p - operation bindings plan hplan state server
  refine ⟨.ok, fun response hresponse => ?_⟩
  obtain rfl : nullAnswer = response := Except.ok.inj hresponse
  refine ⟨⟨_, rfl, _, rfl⟩, ?_⟩
  rw [(plan_of_make hplan).1]
  obtain ⟨key, keys, hpath⟩ := List.exists_cons_of_ne_nil (PagePlan.path_ne_nil_of_make hplan)
  rw [PagePlan.valueIn, hpath]
  by_cases hkey : "allFoo" = key
  · subst hkey
    cases keys with
    | nil => rfl
    | cons next keys =>
        have hnull : (PagePlan.dataOf nullAnswer).atPath ("allFoo" :: next :: keys)
          = Json.null.atPath keys := rfl
        rw [hnull, Json.atPath_null]
        rfl
  · have hnull : (PagePlan.dataOf nullAnswer).atPath (key :: keys) = Json.null.atPath keys := by
      have hdata : PagePlan.dataOf nullAnswer = .obj [("allFoo", .arr [.null])] := rfl
      rw [hdata, Json.atPath_obj, Keyed.get?, if_neg hkey]
      rfl
    rw [hnull, Json.atPath_null]
    rfl

lemma definition_null : (nullSourcing d).definition d.type = .ok d := by
  rw [definition, nullSourcing, Keyed.get?, if_pos rfl]

/-- The listing walks the pages of the plan. -/
lemma nodeList_null
    (hplan : PagePlan.make d.document "LIST_Foo" [] [.limitOffset] = .ok (nullPlan d)) :
    (nullSourcing d).nodeList d.type "LIST_Foo"
      = (nullPlan d).walk (nullSourcing d).execute ((nullSourcing d).pageNodes d (nullPlan d)) 1
        (nullPlan d).strategy.start := by
  have hprepared : (do
      let d' ← (nullSourcing d).definition d.type
      return (d', ← PagePlan.make d'.document "LIST_Foo" [] (nullSourcing d).strategies)
        : Except ConfigurationFault (NodeDefinition × PagePlan)) = .ok (d, nullPlan d) :=
    bind_eq_ok.mpr ⟨d, definition_null, bind_eq_ok.mpr ⟨nullPlan d, hplan, rfl⟩⟩
  rw [nodeList, hprepared]
  rfl

/-- What the null node comes to decides what the listing comes to. -/
lemma outcome_allNodes_null {outcome : Except Fault Json}
    (hoperations : d.document.listOperations = ["LIST_Foo"])
    (hplan : PagePlan.make d.document "LIST_Foo" [] [.limitOffset] = .ok (nullPlan d))
    (hnode : ((nullSourcing d).addFields d .null).outcome () = (outcome, ())) :
    ((nullSourcing d).allNodes d.type).outcome () = ((fun node => [node]) <$> outcome, ()) := by
  obtain ⟨gathered, hpick, hcomplete⟩ := Harvest.run_each_singleton hnode
  have hlist : ((nullSourcing d).nodeList d.type "LIST_Foo").run () = (gathered, ()) := by
    have hresponse : ((nullSourcing d).execute
        ((nullPlan d).request (nullPlan d).strategy.start)).outcome () = (.ok nullAnswer, ()) := rfl
    have hpage : (nullPlan d).page (nullPlan d).strategy.start nullAnswer = .ok nullPage := rfl
    rw [nodeList_null hplan]
    exact PagePlan.run_walk_last rfl hresponse hpage rfl hpick 0
  rw [outcome_allNodes definition_null, hoperations,
    Session.outcome_gather_of_run (Harvest.run_flatEach_singleton hlist), hcomplete]

/-- All that sourcing comes to, for a type with one operation that lists nodes. -/
lemma source_null {outcome : Except Fault Json}
    (hoperations : d.document.listOperations = ["LIST_Foo"])
    (hplan : PagePlan.make d.document "LIST_Foo" [] [.limitOffset] = .ok (nullPlan d))
    (hnode : ((nullSourcing d).addFields d .null).outcome () = (outcome, ())) :
    ((nullSourcing d).source.run ()).1
      = (nullSourcing d).deliver [(d.type, d, (fun node => [node]) <$> outcome)] := by
  have hall : ((nullSourcing d).allNodes d.type).run.run ()
      = ((fun node => [node]) <$> outcome, ()) := outcome_allNodes_null hoperations hplan hnode
  have htypes : ((nullSourcing d).fetchTypes [(d.type, d)]).run ()
      = ([(d.type, d, (fun node => [node]) <$> outcome)], ()) := by
    rw [fetchTypes, run_bind_of_eq hall]
    rfl
  have hdefinitions : (nullSourcing d).definitions = [(d.type, d)] := rfl
  rw [source_eq, StateT.run_map, hdefinitions, htypes]
  rfl

/-- The path to the paginated field of an author. -/
lemma path_author {operation field : String} {bindings : Keyed Json} {plan : PagePlan}
    (hfield : authorDocument.fieldPath operation
      (fun s => PageStrategy.limitOffset.accepts s.argumentVariables)
        = .ok ["foo", "author", field])
    (h : PagePlan.make authorDocument operation bindings [.limitOffset] = .ok plan) :
    plan.path = ["foo", "author", field] :=
  Except.ok.inj ((plan_of_make h).2.symm.trans hfield)

/-- For a node with paginated fields nulls do no harm. -/
lemma guarded_author : (nullSourcing authorDefinition).Guarded := by
  have hoperations : authorDocument.fieldOperations = ["PAGINATE_posts", "PAGINATE_comments"] := by
    decide +kernel
  refine ⟨fun p hp => ?_, fun p hp operation _ plan hplan state server response _ => ?_,
    fun p hp operation hoperation bindings plan root hplan hroot => ?_⟩
  · obtain rfl := List.mem_singleton.mp hp
    exact ⟨_, rfl⟩
  · obtain rfl := List.mem_singleton.mp hp
    rw [(plan_of_make hplan).1]
    refine ⟨rfl, fun hnone => ?_⟩
    cases hnone.symm.trans hoperations
  · obtain rfl := List.mem_singleton.mp hp
    change operation ∈ authorDocument.fieldOperations at hoperation
    have hroot' : authorDocument.nodePath operation = .ok ["foo"]
        ∧ ∃ field, authorDocument.fieldPath operation
          (fun s => PageStrategy.limitOffset.accepts s.argumentVariables)
            = .ok ["foo", "author", field] := by
      simp only [hoperations, List.mem_cons, List.not_mem_nil, or_false] at hoperation
      rcases hoperation with rfl | rfl
      · exact ⟨by cbv, "posts", by cbv⟩
      · exact ⟨by cbv, "comments", by cbv⟩
    obtain ⟨hroot', field, hpath⟩ := hroot'
    obtain rfl : ["foo"] = root := Except.ok.inj (hroot'.symm.trans hroot)
    refine ⟨?_, fun _ _ _ hresponse => ?_⟩
    · rw [path_author hpath hplan]
      rintro ⟨_, hpath⟩
      cases hpath
    · obtain rfl : nullAnswer = _ := Except.ok.inj hresponse
      rfl

/-- The null node cannot be identified, and this is what sourcing fails with. -/
theorem source_failsIn_author :
    (nullSourcing authorDefinition).Answered ∧ (nullSourcing authorDefinition).Guarded
      ∧ ((nullSourcing authorDefinition).source.run ()).1.1.fault?
        = some (.node (.notAnObject .null))
      ∧ (Fault.node (.notAnObject .null) = .tooManyPages
        ∨ (Fault.node (.notAnObject .null)).IsOwn) := by
  have hfault : ((nullSourcing authorDefinition).source.run ()).1.1.fault?
      = some (.node (.notAnObject .null)) := by
    have hnode : ((nullSourcing authorDefinition).addFields authorDefinition .null).outcome ()
        = (.error (.node (.notAnObject .null)), ()) := by
      have hpick : authorDefinition.pickId .null = .error (.node (.notAnObject .null)) := rfl
      have hlift : (liftM (authorDefinition.pickId .null) : Session Unit (Keyed Json)).outcome ()
          = (.error (.node (.notAnObject .null)), ()) := by
        rw [Session.outcome_lift, hpick]
      rw [addFields, if_neg (by decide +kernel)]
      exact Session.outcome_bind_error hlift _
    rw [source_null (by decide +kernel) (by cbv) hnode]
    rfl
  exact ⟨answered_null, guarded_author, hfault, source_failsIn (nullSourcing authorDefinition)
    answered_null guarded_author () _ hfault⟩

/-- The declaration of the type with a list page by page. -/
def pagedDeclaration : NodeDeclaration where
  type := "Foo"
  queries := "query LIST_Foo { allFoo(limit: $limit, offset: $offset) { ...FooId } } "
    ++ "fragment FooId on Foo { id }"

/-- The queries of the declaration. -/
def pagedQueries : Document := [
  .operation { fooOperation [] with
    selections := [.field none "allFoo" pageArguments [] (some [.spread "FooId" []])] },
  .fragment fooIdFragment]

set_option maxRecDepth 10000 in
lemma read_pagedDeclaration : pagedDeclaration.read 0 = .ok (pagedQueries, fooIdFragment) := by
  have hscan : Token.scan? pagedDeclaration.queries = some [.name "query", .name "LIST_Foo",
      .mark '\x7b', .name "allFoo", .mark '(', .name "limit", .mark ':', .mark '$', .name "limit",
      .name "offset", .mark ':', .mark '$', .name "offset", .mark ')', .mark '\x7b', .ellipsis,
      .name "FooId", .mark '\x7d', .mark '\x7d', .name "fragment", .name "FooId", .name "on",
      .name "Foo", .mark '\x7b', .name "id", .mark '\x7d'] := by
    decide +kernel
  refine NodeDeclaration.read_eq_ok.mpr ⟨by decide, by decide, ?_, rfl, rfl⟩
  exact Document.parse?_of_scan hscan rfl

lemma referenceFragments_paged :
    referenceFragments pagedSchema [pagedDeclaration] = .ok fooReferences := by
  rw [referenceFragments, typeReferences, read_pagedDeclaration]
  rfl

/-- The type with the document that is compiled for it. -/
def pagedDefinition : NodeDefinition :=
  listedDefinition "Foo" "LIST_Foo" "allFoo" "FooId"

set_option maxRecDepth 10000 in
lemma compileQueries_paged :
    (compileQueries pagedSchema [pagedDeclaration] [] defaultAliases).outcome
      = .ok [("Foo", pagedDefinition.document)] := by
  refine compileQueries_eq_ok.mpr ⟨[], fooReferences, [], [("Foo", pagedDefinition.document)], rfl,
    referenceFragments_paged, rfl, ?_, rfl⟩
  exact compileEach_cons_eq_ok.mpr ⟨pagedQueries, fooIdFragment, pagedDefinition.document, [],
    read_pagedDeclaration, rfl, rfl, rfl⟩

lemma nodeDefinitions_paged :
    nodeDefinitions [pagedDeclaration] [("Foo", pagedDefinition.document)]
      = .ok [("Foo", pagedDefinition)] := by
  simp only [nodeDefinitions, definitionsFrom, read_pagedDeclaration]
  rfl

/-- Without paginated fields nothing looks at the null node before it is made a record, and this
fails in no way of its own. -/
theorem source_malformed : ∃ documents, ∃ s : Sourcing Unit,
    (compileQueries pagedSchema [pagedDeclaration] [] defaultAliases).outcome = .ok documents
      ∧ nodeDefinitions [pagedDeclaration] documents = .ok s.definitions ∧ s.Answered
      ∧ (s.source.run ()).1.1.fault? = some .malformed := by
  refine ⟨_, nullSourcing pagedDefinition, compileQueries_paged, nodeDefinitions_paged,
    answered_null, ?_⟩
  have hnode : ((nullSourcing pagedDefinition).addFields pagedDefinition .null).outcome ()
      = (.ok .null, ()) := outcome_addFields (by decide +kernel) _ _
  rw [source_null (by decide +kernel) (by cbv) hnode]
  rfl

end Sourcing

end RemoteNodes
