import Mathlib.Tactic
import RemoteNodes.Proofs.Fetch.Combine
import RemoteNodes.Proofs.Keyed
/-!
Walking a connection by cursor. The place in the list is known only from the cursor of the last
edge that was read, so the invariant ties that cursor to the edges that are left.

* `EdgesFrom`: the edges after the edge of a cursor; `EdgesFrom.unique`: there is one such list if
  cursors differ.
* `PagePlan.ServesEdges`: a server that answers with the edges after a cursor.
* `PagePlan.AtEdge`: the invariant; `exists_page_edges` keeps it.
* `PagePlan.exists_walked_edges`: the walk from any edge.
* `PagePlan.fetchAll_edges`: **completeness**, with the number of requests.
-/

namespace RemoteNodes

/-! ### Edges and their cursors -/

/-- The cursor of an edge. -/
def Json.cursor (edge : Json) : Json := (edge.field? "cursor").getD .null

/-- The node of an edge. -/
def Json.node (edge : Json) : Json := (edge.field? "node").getD .null

/-- Edges are objects whose cursors are there and differ. -/
structure Cursored (edges : List Json) : Prop where
  objects : ∀ edge ∈ edges, ∃ fields, edge = .obj fields
  present : ∀ edge ∈ edges, edge.cursor ≠ .null
  distinct : (edges.map Json.cursor).Nodup

/-- The edges after the edge of a cursor, all of them for no cursor. -/
inductive EdgesFrom (edges : List Json) : Json → List Json → Prop where
  | start : EdgesFrom edges .null edges
  | after {before rest : List Json} {edge cursor : Json} (h : edges = before ++ edge :: rest)
      (hcursor : edge.cursor = cursor) : EdgesFrom edges cursor rest

variable {edges : List Json}

/-- A cursor leaves one list of edges. -/
lemma EdgesFrom.unique (hedges : Cursored edges) {cursor : Json} {rest rest' : List Json}
    (h : EdgesFrom edges cursor rest) (h' : EdgesFrom edges cursor rest') : rest = rest' := by
  cases h with
  | start =>
      cases h' with
      | start => rfl
      | @after before _ edge _ h' hcursor =>
          exact absurd hcursor (hedges.present edge (by simp [h']))
  | @after before _ edge _ h hcursor =>
      cases h' with
      | start => exact absurd hcursor (hedges.present edge (by simp [h]))
      | @after before' _ edge' _ h' hcursor' =>
          -- both places are that of the cursor in the list of cursors
          have hmap := congrArg (List.map Json.cursor) h
          have hmap' := congrArg (List.map Json.cursor) h'
          rw [List.map_append, List.map_cons, hcursor] at hmap
          rw [List.map_append, List.map_cons, hcursor'] at hmap'
          have hdistinct := hedges.distinct
          rw [hmap, List.nodup_middle, List.nodup_cons, List.mem_append, not_or] at hdistinct
          have hsplit := hmap.symm.trans hmap'
          rw [List.append_cons_inj_of_notMem hdistinct.1.1 hdistinct.1.2] at hsplit
          have hlength : before.length = before'.length := by
            rw [← List.length_map Json.cursor, hsplit.1, List.length_map]
          have hlists := List.append_inj (h.symm.trans h') hlength
          exact (List.cons.inj hlists.2).2

/-- An edge with a cursor counts as present. -/
lemma Cursored.isTruthy (hedges : Cursored edges) {edge : Json} (h : edge ∈ edges) :
    edge.isTruthy = true := by
  obtain ⟨fields, rfl⟩ := hedges.objects edge h
  cases fields with
  | nil => exact absurd rfl (hedges.present _ h)
  | cons p fields => rfl

lemma Cursored.key_cursor (hedges : Cursored edges) {edge : Json} (h : edge ∈ edges) :
    edge.key "cursor" = .ok edge.cursor := by
  obtain ⟨fields, rfl⟩ := hedges.objects edge h
  rfl

namespace Connection

/-- The next cursor of a connection whose last edge is known. -/
lemma cursor_of_last (hedges : Cursored edges) {c : Connection} {edge : Json} (h : edge ∈ edges)
    (hlast : c.edges.getLast? = some edge) :
    c.last.isTruthy = true ∧ c.cursor = .ok edge.cursor := by
  have hsame : c.last = edge := by rw [last, hlast]; rfl
  rw [cursor, hsame, if_pos (hedges.isTruthy h)]
  exact ⟨hedges.isTruthy h, hedges.key_cursor h⟩

/-- A connection of edges has a next cursor, which may be null. -/
lemma exists_cursor (hedges : Cursored edges) {c : Connection}
    (h : ∀ edge ∈ c.edges, edge ∈ edges) : ∃ cursor, c.cursor = .ok cursor := by
  cases hlast : c.edges.getLast? with
  | none =>
      refine ⟨.null, ?_⟩
      rw [cursor, last, hlast]
      rfl
  | some edge =>
      exact ⟨_, (cursor_of_last hedges (h edge (List.mem_of_getLast? hlast)) hlast).2⟩

end Connection

namespace PagePlan

variable {σ : Type} {plan : PagePlan} {execute : Executor σ}

/-- The server has edges at the path of a plan. Asked for the first `size` edges after a cursor, it
answers with data in which the path leads to them, and says whether more follow. -/
def ServesEdges (plan : PagePlan) (edges : List Json) (execute : Executor σ) : Prop :=
  ∀ (request : Request) (size : Nat) (cursor : Json) (server : σ),
    request.operation = plan.operation →
    Keyed.get? request.bindings "first" = some (.int size) →
    Keyed.get? request.bindings "after" = some cursor →
    (∃ rest, EdgesFrom edges cursor rest) →
    ∃ rest fields data page info server', EdgesFrom edges cursor rest
      ∧ (execute request).outcome server = (.ok (.obj fields), server')
      ∧ Keyed.get? fields "data" = some data ∧ Json.Leads plan.path data (.obj page)
      ∧ Keyed.get? page "edges" = some (.arr (rest.take size))
      ∧ Keyed.get? page "pageInfo" = some (.obj info)
      ∧ Keyed.get? info "hasNextPage" = some (.bool (decide (size < rest.length)))

/-- Between two pages: the result has the edges up to a place, and if a page comes next it is asked
for with a cursor that leaves the edges from there. -/
structure AtEdge (edges : List Json) (place : Nat) (state : PageState) : Prop where
  result : state.result.field? "edges" = some (.arr (edges.take place))
  bindings : state.hasNext = true → ∃ cursor, EdgesFrom edges cursor (edges.drop place)
    ∧ state.bindings = [("first", .int pageSize), ("after", cursor)]

lemma atEdge_start (edges : List Json) : AtEdge edges 0 PageStrategy.relayForward.start where
  result := rfl
  bindings := fun _ => ⟨.null, by simpa using EdgesFrom.start, rfl⟩

/-! ### One page -/

/-- The edges of a full page end with the one whose cursor leaves the edges after them. -/
lemma exists_edge_of_lt {place : Nat} (h : 100 < edges.length - place) :
    ∃ edge ∈ edges, ((edges.drop place).take 100).getLast? = some edge
      ∧ EdgesFrom edges edge.cursor (edges.drop (place + 100)) := by
  have hlt : place + 99 < edges.length := by omega
  refine ⟨edges[place + 99], List.getElem_mem hlt, ?_, ?_⟩
  · rw [List.take_add_one, List.getElem?_drop, List.getElem?_eq_getElem hlt]
    exact List.getLast?_concat
  · have hsplit : edges = edges.take (place + 99)
        ++ edges[place + 99] :: edges.drop (place + 99 + 1) := by
      rw [List.getElem_cons_drop, List.take_append_drop]
    exact .after hsplit rfl

/-- The cursor for the page after a slice of edges leaves the edges after it, if there are some. -/
lemma exists_cursor_slice (hedges : Cursored edges) {place : Nat} {c : Connection}
    (hc : c.edges = (edges.drop place).take 100) :
    ∃ after, c.cursor = .ok after ∧ (100 < edges.length - place →
      c.last.isTruthy = true ∧ EdgesFrom edges after (edges.drop (place + 100))) := by
  by_cases hlt : 100 < edges.length - place
  · obtain ⟨edge, hedge, hlast, hfrom⟩ := exists_edge_of_lt hlt
    rw [← hc] at hlast
    obtain ⟨htruthy, hcursor⟩ := Connection.cursor_of_last hedges hedge hlast
    exact ⟨edge.cursor, hcursor, fun _ => ⟨htruthy, hfrom⟩⟩
  · have hmem : ∀ edge ∈ c.edges, edge ∈ edges := by
      intro edge hedge
      rw [hc] at hedge
      exact List.mem_of_mem_drop (List.mem_of_mem_take hedge)
    obtain ⟨after, hafter⟩ := Connection.exists_cursor hedges hmem
    exact ⟨after, hafter, fun h => absurd h hlt⟩

/-- One page: the edges at the place are added, and a page with edges after it is not the last. -/
lemma exists_addPage_edges (hedges : Cursored edges) {place : Nat} {state : PageState}
    (hat : AtEdge edges place state) (hnext : state.hasNext = true) {page info : Keyed Json}
    (hpage : Keyed.get? page "edges" = some (.arr ((edges.drop place).take 100)))
    (hinfo : Keyed.get? page "pageInfo" = some (.obj info))
    (hmore : Keyed.get? info "hasNextPage"
      = some (.bool (decide (100 < edges.length - place)))) :
    ∃ state', PageStrategy.relayForward.addPage state (.obj page) = .ok state'
      ∧ AtEdge edges (place + 100) state'
      ∧ state'.hasNext = decide (100 < edges.length - place) := by
  obtain ⟨cursor, -, hbindings⟩ := hat.bindings hnext
  have hread : Connection.read (.obj page)
      = .ok ⟨(edges.drop place).take 100, .obj info⟩ := by
    rw [Connection.read_obj (by rw [hpage]; exact Json.or_arr _), hinfo]
    exact congrArg (fun v => Except.ok (Connection.mk _ v)) (Json.or_obj info)
  have hfirst : numberOr pageSize state.bindings "first" = .ok pageSize := by
    rw [hbindings]
    rfl
  have hkey : (Json.obj info).key "hasNextPage"
      = .ok (.bool (decide (100 < edges.length - place))) :=
    Json.key_eq_ok.mpr ⟨info, rfl, by rw [hmore]; rfl⟩
  obtain ⟨after, hafter, hfull⟩ :=
    exists_cursor_slice hedges (c := ⟨(edges.drop place).take 100, .obj info⟩) rfl
  refine ⟨_, PageStrategy.addPage_relayForward.mpr ⟨_, _, edges.take place, pageSize, after, _,
    hread, hat.result, rfl, hfirst, hafter, hkey, rfl⟩, ⟨?_, fun h => ?_⟩, ?_⟩
  · rw [List.take_add]
    rfl
  · rw [Bool.and_eq_true] at h
    exact ⟨after, (hfull (of_decide_eq_true h.1)).2, rfl⟩
  · by_cases hlt : 100 < edges.length - place
    · rw [(hfull hlt).1, Bool.and_true]
      rfl
    · rw [decide_eq_false hlt]
      rfl

/-- The page from a place is asked for, answered and read. -/
lemma exists_page_edges (hstrategy : plan.strategy = .relayForward) (hpath : plan.path ≠ [])
    (hedges : Cursored edges) (hserves : ServesEdges plan edges execute) {place : Nat}
    {state : PageState} (hat : AtEdge edges place state) (hnext : state.hasNext = true)
    (server : σ) :
    ∃ response page server',
      (execute (plan.request state)).outcome server = (.ok response, server')
      ∧ plan.page state response = .ok page
      ∧ AtEdge edges (place + 100) page.state
      ∧ page.state.hasNext = decide (100 < edges.length - place)
      ∧ (page.data.holder? plan.path).isSome := by
  obtain ⟨cursor, hfrom, hbindings⟩ := hat.bindings hnext
  have hget (name : String) : Keyed.get? (plan.request state).bindings name
      = (Keyed.get? [("first", .int pageSize), ("after", cursor)] name).or
        (Keyed.get? plan.bindings name) := by
    rw [← hbindings]
    refine Keyed.get?_overlay ?_ plan.bindings name
    simp [Keyed.keys, hbindings]
  obtain ⟨rest, fields, data, page, info, server', hrest, hresponse, hdata, hleads, hpage, hinfo,
    hmore⟩ := hserves (plan.request state) 100 cursor server rfl (hget "first") (hget "after")
      ⟨_, hfrom⟩
  rw [hrest.unique hedges hfrom] at hpage hmore
  rw [List.length_drop] at hmore
  obtain ⟨state', hadd, hat', hnext'⟩ := exists_addPage_edges hedges hat hnext hpage hinfo hmore
  rw [← hstrategy] at hadd
  obtain ⟨page, hread, rfl, hholder⟩ := page_of_leads hpath hdata hleads hadd
  exact ⟨_, page, server', hresponse, hread, hat', hnext', hholder⟩

/-! ### The walk -/

/-- The walk from a place asks once for each hundred edges that are left, at least once. Its result
has all edges. -/
theorem exists_walked_edges (hstrategy : plan.strategy = .relayForward) (hpath : plan.path ≠ [])
    (hedges : Cursored edges) (hserves : ServesEdges plan edges execute) {n place : Nat}
    (hn : (edges.length - place - 1) / 100 = n) {state : PageState}
    (hat : AtEdge edges place state) (hnext : state.hasNext = true) (server : σ) :
    ∃ pages server', Walked plan execute state server pages server'
      ∧ (stateAfter state pages).result.field? "edges" = some (.arr edges)
      ∧ (∀ page ∈ pages, (page.data.holder? plan.path).isSome)
      ∧ pages.length = n + 1 := by
  induction n generalizing place state server with
  | zero =>
      -- a hundred edges or less are the last page
      obtain ⟨response, page, server', hresponse, hpage, hat', hnext', hholder⟩ :=
        exists_page_edges hstrategy hpath hedges hserves hat hnext server
      rw [decide_eq_false (by omega)] at hnext'
      have hall : edges.take (place + 100) = edges := List.take_of_length_le (by omega)
      refine ⟨[page], server', .next hnext hresponse hpage (.done hnext'), ?_,
        by simpa using hholder, rfl⟩
      rw [stateAfter, List.foldl_cons, List.foldl_nil, hat'.result, hall]
  | succ n ih =>
      -- more are followed by the walk from the hundredth
      obtain ⟨response, page, server₁, hresponse, hpage, hat', hnext', hholder⟩ :=
        exists_page_edges hstrategy hpath hedges hserves hat hnext server
      rw [decide_eq_true (by omega)] at hnext'
      have hrest : (edges.length - (place + 100) - 1) / 100 = n := by omega
      obtain ⟨pages, server', hwalk, hresult, hholders, hlength⟩ := ih hrest hat' hnext' server₁
      refine ⟨page :: pages, server', .next hnext hresponse hpage hwalk, hresult, ?_, ?_⟩
      · intro p hp
        rcases List.mem_cons.mp hp with rfl | hp
        · exact hholder
        · exact hholders p hp
      · rw [List.length_cons, hlength]

/-- The items of a result that has all edges are their nodes. -/
lemma items_of_edges (hedges : Cursored edges) {result : Json}
    (h : result.field? "edges" = some (.arr edges)) :
    PageStrategy.relayForward.items result = .ok (edges.map Json.node) := by
  cases result with
  | obj fields =>
      have hlist : ((Keyed.get? fields "edges").getD .null).or (.arr []) = .arr edges := by
        rw [Json.field?] at h
        rw [h]
        exact Json.or_arr edges
      exact PageStrategy.items_eq_ok_relayForward.mpr
        ⟨_, Connection.read_obj hlist, Json.mapM_key hedges.objects "node"⟩
  | null | bool _ | int _ | real _ | str _ | arr _ => cases h

/-- **Completeness by cursor**: the node of every edge is handed out once and in order, after one
request for each hundred edges begun, at least one. The path is that of a field, as in every plan
that is made (`path_ne_nil_of_make`). -/
theorem fetchAll_edges (plan : PagePlan) (hstrategy : plan.strategy = .relayForward)
    (hpath : plan.path ≠ []) (edges : List Json) (hedges : Cursored edges) (execute : Executor σ)
    (hserves : ServesEdges plan edges execute) (limit : Nat)
    (hlimit : max 1 ((edges.length + 99) / 100) ≤ limit) (server : σ) :
    ∃ server' asked,
      (plan.fetchAll execute limit).outcome server = (.ok (edges.map Json.node), server')
      ∧ (plan.fetchAll execute.logged limit).outcome (server, [])
        = (.ok (edges.map Json.node), server', asked)
      ∧ asked.length = max 1 ((edges.length + 99) / 100) := by
  have hat : AtEdge edges 0 plan.strategy.start := by
    rw [hstrategy]
    exact atEdge_start edges
  have hn : (edges.length - 0 - 1) / 100 = (edges.length - 1) / 100 := by rw [Nat.sub_zero]
  obtain ⟨pages, server', hwalk, hresult, hholders, hlength⟩ :=
    exists_walked_edges hstrategy hpath hedges hserves hn hat (by rw [hstrategy]; rfl) server
  have hcount : (edges.length - 1) / 100 + 1 = max 1 ((edges.length + 99) / 100) := by omega
  rw [hcount] at hlength
  have hpages : pages.length ≤ limit := hlength ▸ hlimit
  obtain ⟨hfetch, hlogged⟩ := hwalk.outcome_fetchAll_logged hpages hholders
  have hitems := items_of_edges hedges hresult
  rw [← hstrategy] at hitems
  rw [hitems] at hfetch hlogged
  exact ⟨server', _, hfetch, hlogged, (length_requests _ _).trans hlength⟩

/-! ### A server of edges -/

/-- The edge of a number: both its cursor and its node. -/
def numberedEdge (n : Nat) : Json := .obj [("cursor", .int n), ("node", .int n)]

/-- The edges of the numbers below `count`. -/
def numberedEdges (count : Nat) : List Json := (List.range count).map numberedEdge

/-- Those after a cursor. -/
def numberedAfter (count : Nat) : Json → List Json
  | .int n => (numberedEdges count).drop (n.toNat + 1)
  | _ => numberedEdges count

/-- A page of the first edges of a list. -/
def numberedPage (size : Nat) (rest : List Json) : Keyed Json :=
  [("edges", .arr (rest.take size)),
    ("pageInfo", .obj [("hasNextPage", .bool (decide (size < rest.length)))])]

/-- A response with a page. -/
def numberedResponse (page : Keyed Json) : Keyed Json := [("data", .obj [("allFoo", .obj page)])]

/-- A server of those edges. -/
def numberedServer (count : Nat) : Executor Unit := fun request =>
  match Keyed.get? request.bindings "first", Keyed.get? request.bindings "after" with
  | some (.int size), some cursor =>
      return .obj (numberedResponse (numberedPage size.toNat (numberedAfter count cursor)))
  | _, _ => throw .malformed

/-- The plan to walk those edges. -/
def numberedPlan : PagePlan :=
  { document := [], operation := "LIST_Foo", strategy := .relayForward, path := ["allFoo"],
    bindings := [] }

lemma cursored_numberedEdges (count : Nat) : Cursored (numberedEdges count) where
  objects := by
    intro edge hedge
    obtain ⟨n, -, rfl⟩ := List.mem_map.mp hedge
    exact ⟨_, rfl⟩
  present := by
    intro edge hedge
    obtain ⟨n, -, rfl⟩ := List.mem_map.mp hedge
    exact Json.noConfusion
  distinct := by
    have hcursors : (numberedEdges count).map Json.cursor
        = (List.range count).map fun n : Nat => Json.int n := by
      rw [numberedEdges, List.map_map]
      rfl
    rw [hcursors]
    refine List.nodup_range.map fun n m h => ?_
    simpa using h

lemma numberedAfter_of_edgesFrom {count : Nat} {cursor : Json} {rest : List Json}
    (h : EdgesFrom (numberedEdges count) cursor rest) : numberedAfter count cursor = rest := by
  cases h with
  | start => rfl
  | @after before rest edge _ h hcursor =>
      have hedge : (numberedEdges count)[before.length]? = some edge := by simp [h]
      have hnumber : edge = numberedEdge before.length := by
        rw [numberedEdges, List.getElem?_map, Option.map_eq_some_iff] at hedge
        obtain ⟨n, hn, rfl⟩ := hedge
        rw [List.getElem?_eq_some_iff] at hn
        obtain ⟨_, rfl⟩ := hn
        rw [List.getElem_range]
      subst hnumber
      subst hcursor
      have hafter : numberedAfter count (numberedEdge before.length).cursor
          = (numberedEdges count).drop (before.length + 1) := rfl
      rw [hafter, h]
      simp

lemma servesEdges_numberedServer (count : Nat) :
    ServesEdges numberedPlan (numberedEdges count) (numberedServer count) := by
  rintro request size cursor server - hfirst hafter ⟨rest, hrest⟩
  have hsame := numberedAfter_of_edgesFrom hrest
  refine ⟨rest, numberedResponse (numberedPage size rest), _, numberedPage size rest, _, server,
    hrest, ?_, rfl, .key rfl (.here _), rfl, rfl, rfl⟩
  rw [numberedServer, hfirst, hafter, ← hsame]
  rfl

/-- Two full pages need two requests. -/
theorem fetchAll_edges_two_hundred :
    numberedPlan.strategy = .relayForward ∧ numberedPlan.path ≠ []
      ∧ Cursored (numberedEdges 200)
      ∧ ServesEdges numberedPlan (numberedEdges 200) (numberedServer 200)
      ∧ ∃ asked,
        (numberedPlan.fetchAll (numberedServer 200).logged 2).outcome ((), [])
          = (.ok ((numberedEdges 200).map Json.node), (), asked)
        ∧ asked.length = 2 := by
  have hlength : (numberedEdges 200).length = 200 := by
    rw [numberedEdges, List.length_map, List.length_range]
  have hserves := servesEdges_numberedServer 200
  obtain ⟨_, asked, -, hlogged, hasked⟩ := fetchAll_edges numberedPlan rfl (by decide) _
    (cursored_numberedEdges 200) _ hserves 2 (by rw [hlength]; decide) ()
  rw [hlength] at hasked
  exact ⟨rfl, by decide, cursored_numberedEdges 200, hserves, asked, hlogged, hasked⟩

end PagePlan

end RemoteNodes
