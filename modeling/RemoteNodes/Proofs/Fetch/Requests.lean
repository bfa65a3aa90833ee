import Mathlib.Tactic
import RemoteNodes.Fetch.Prepared
import RemoteNodes.Proofs.Fetch.Combine
import RemoteNodes.Proofs.Keyed
/-!
The requests of a walk by cursor, however it ends. Whether a page is asked for twice depends on the
edges that have a cursor: the page after an edge without one is asked for as the first page is.

* `PagePlan.Asks`: the requests of a walk from a state, one for each page and one more at most.
* `PagePlan.asks_of_run`: what was asked in any run, also one that fails or reaches its limit.
* `PagePlan.Asks.bindings_eq`: the variables of the requests are told by the cursors of last edges.
* `PagePlan.requests_nodup_iff`: **the exact condition** under which no request is made twice.
* `PagePlan.requests_repeat`: two pages without cursors, of which the first is asked for twice.
-/

namespace RemoteNodes

namespace Connection

/-- The cursors that edges have. -/
def cursors (c : Connection) : List Json := c.edges.filterMap (·.field? "cursor")

/-- The cursor that the last edge has. -/
def lastCursor? (c : Connection) : Option Json := c.last.field? "cursor"

lemma mem_cursors_of_lastCursor? {c : Connection} {cursor : Json}
    (h : c.lastCursor? = some cursor) : cursor ∈ c.cursors := by
  cases hlast : c.edges.getLast? with
  | none => simp [lastCursor?, last, hlast, Json.field?] at h
  | some edge =>
      rw [lastCursor?, last, hlast, Option.getD_some] at h
      exact List.mem_filterMap.mpr ⟨edge, List.mem_of_getLast? hlast, h⟩

/-- The next page is asked for with the cursor that the last edge has, with null if it has none. -/
lemma cursor_eq_getD {c : Connection} {after : Json} (h : c.cursor = .ok after) :
    after = c.lastCursor?.getD .null := by
  rw [cursor] at h
  rw [lastCursor?]
  split at h
  · obtain ⟨fields, hlast, rfl⟩ := Json.key_eq_ok.mp h
    rw [hlast, Json.field?]
  · rename_i hfalsy
    cases h
    cases hlast : c.last with
    | obj fields =>
        obtain rfl : fields = [] := by simpa [hlast, Json.isTruthy] using hfalsy
        rfl
    | null | bool _ | int _ | real _ | str _ | arr _ => rfl

end Connection

namespace Page

/-- The cursors that the edges of a page have. -/
def cursors (page : Page) : List Json :=
  match Connection.read page.value with
  | .ok c => c.cursors
  | .error _ => []

/-- The cursor that the last edge of a page has. -/
def lastCursor? (page : Page) : Option Json :=
  match Connection.read page.value with
  | .ok c => c.lastCursor?
  | .error _ => none

lemma mem_cursors_of_lastCursor? {page : Page} {cursor : Json}
    (h : page.lastCursor? = some cursor) : cursor ∈ page.cursors := by
  rw [lastCursor?] at h
  rw [cursors]
  split at h
  · exact Connection.mem_cursors_of_lastCursor? h
  · cases h

end Page

namespace PagePlan

variable {σ : Type} {plan : PagePlan} {execute : Executor σ} {state : PageState}
  {pages : List Page} {asked : List Request}

/-! ### What is asked -/

/-- A walk from a state asks for pages one after another. It ends by itself, at its limit, or with a
request that gives no page. -/
inductive Asks (plan : PagePlan) : PageState → List Page → List Request → Prop where
  | done (state : PageState) : Asks plan state [] []
  | failed (state : PageState) : Asks plan state [] [plan.request state]
  | next {state : PageState} {response : Json} {page : Page} {pages : List Page}
      {asked : List Request} (hpage : plan.page state response = .ok page)
      (hrest : Asks plan page.state pages asked) :
      Asks plan state (page :: pages) (plan.request state :: asked)

/-- What an executor was asked in a run from a state. -/
lemma asks_of_run {limit : Nat} {server server' : σ} {before after : List Request}
    {harvest : Harvest Page}
    (h : (plan.walk execute.logged (fun page => pure ⟨[page], none⟩) limit state).run
      (server, before) = (harvest, (server', after))) :
    ∃ asked, after = before ++ asked ∧ Asks plan state harvest.items asked := by
  induction limit generalizing state server before harvest with
  | zero =>
      cases h
      exact ⟨[], by simp, .done state⟩
  | succ limit ih =>
      cases hnext : state.hasNext with
      | false =>
          rw [run_walk_done hnext] at h
          cases h
          exact ⟨[], by simp, .done state⟩
      | true =>
          rcases hout : (execute (plan.request state)).outcome server with
            ⟨fault | response, server₁⟩
          all_goals have hlogged := Executor.outcome_logged hout before
          · rw [run_walk_failed hnext hlogged] at h
            cases h
            exact ⟨_, rfl, .failed state⟩
          cases hpage : plan.page state response with
          | error fault =>
              rw [run_walk_refused hnext hlogged hpage] at h
              cases h
              exact ⟨_, rfl, .failed state⟩
          | ok page =>
              rcases hrest : (plan.walk execute.logged (fun page => pure ⟨[page], none⟩) limit
                  page.state).run (server₁, before ++ [plan.request state])
                with ⟨rest, server₂, later⟩
              rw [run_walk_next hnext hlogged hpage (by rfl) hrest] at h
              cases h
              obtain ⟨asked, hasked, hasks⟩ := ih hrest
              exact ⟨plan.request state :: asked, by simp [hasked], .next hpage hasks⟩

/-- Each request asks for the page after the state before it, the first one for the page after the
state from which the walk starts. -/
lemma Asks.eq_map_request (h : Asks plan state pages asked) :
    asked = ((state :: pages.map Page.state).take asked.length).map plan.request := by
  induction h with
  | done state => rfl
  | failed state => simp
  | next hpage _ ih => simpa using ih

/-! ### Variables by cursor -/

/-- The variables that ask for the page after a cursor. -/
def cursorBindings (cursor : Json) : Keyed Json := [("first", .int pageSize), ("after", cursor)]

/-- The variables of a request for the page after a cursor. -/
def asking (plan : PagePlan) (cursor : Json) : Keyed Json :=
  Keyed.overlay plan.bindings (cursorBindings cursor)

lemma get?_asking (plan : PagePlan) (cursor : Json) :
    Keyed.get? (plan.asking cursor) "after" = some cursor := by
  rw [asking, Keyed.get?_overlay (by simp [Keyed.keys, cursorBindings])]
  rfl

lemma asking_injective (plan : PagePlan) : Function.Injective plan.asking := by
  intro cursor cursor' h
  have hget := congrArg (Keyed.get? · "after") h
  simp only [get?_asking, Option.some.injEq] at hget
  exact hget

/-- After a page the next one is asked for by the cursor of the last edge. -/
lemma bindings_eq_of_addPage {state' : PageState} {value : Json}
    (hsize : PageStrategy.relayForward.Sized state)
    (h : PageStrategy.relayForward.addPage state value = .ok state') :
    ∃ c, Connection.read value = .ok c
      ∧ state'.bindings = cursorBindings (c.lastCursor?.getD .null) := by
  obtain ⟨c, edges, before, first, after, more, hc, -, -, hfirst, hafter, -, rfl⟩ :=
    PageStrategy.addPage_relayForward.mp h
  cases hfirst.symm.trans hsize
  refine ⟨c, hc, ?_⟩
  rw [← Connection.cursor_eq_getD hafter]
  rfl

/-- The state after each page of a walk asks for the page after the cursor of its last edge. -/
lemma Asks.bindings_state (hstrategy : plan.strategy = .relayForward)
    (h : Asks plan state pages asked) (hsize : PageStrategy.relayForward.Sized state) :
    ∀ page ∈ pages, page.state.bindings = cursorBindings (page.lastCursor?.getD .null) := by
  induction h with
  | done | failed => simp
  | @next state response page pages asked hpage _ ih =>
      obtain ⟨-, -, -, -, hadd⟩ := page_eq_ok.mp hpage
      rw [hstrategy] at hadd
      obtain ⟨c, hc, hbindings⟩ := bindings_eq_of_addPage hsize hadd
      intro p hp
      rcases List.mem_cons.mp hp with rfl | hp
      · rw [hbindings, Page.lastCursor?, hc]
      · exact ih (hsize.addPage hadd) p hp

/-- The variables of the requests of a walk: those for no cursor, and then those for the cursors of
the last edges. -/
theorem Asks.bindings_eq (hstrategy : plan.strategy = .relayForward)
    (h : Asks plan plan.strategy.start pages asked) :
    asked.map Request.bindings
      = ((Json.null :: pages.map fun page => page.lastCursor?.getD .null).take asked.length).map
        plan.asking := by
  rw [hstrategy] at h
  have hstates := h.bindings_state hstrategy (PageStrategy.sized_start _)
  have hmap : pages.map (fun page => (plan.request page.state).bindings)
      = pages.map fun page => plan.asking (page.lastCursor?.getD .null) := by
    refine List.map_congr_left fun page hpage => ?_
    rw [request, hstates page hpage, asking]
  calc asked.map Request.bindings
      = ((PageStrategy.relayForward.start :: pages.map Page.state).take asked.length).map
          fun s => (plan.request s).bindings := by
        conv_lhs => rw [h.eq_map_request, List.map_map]
        rfl
    _ = ((plan.request PageStrategy.relayForward.start).bindings
          :: pages.map fun page => (plan.request page.state).bindings).take asked.length := by
        rw [List.map_take, List.map_cons, List.map_map]
        rfl
    _ = _ := by
        rw [hmap, List.map_take, List.map_cons, List.map_map]
        rfl

/-! ### Requests that are made twice -/

/-- One value taken from each part makes up a part of the whole. -/
lemma map_sublist_flatMap {α β : Type} {f : α → β} {g : α → List β} {xs : List α}
    (h : ∀ x ∈ xs, f x ∈ g x) : (xs.map f).Sublist (xs.flatMap g) := by
  induction xs with
  | nil => simp
  | cons x xs ih =>
      have hx : [f x].Sublist (g x) := List.singleton_sublist.mpr (h x (by simp))
      rw [List.map_cons, List.flatMap_cons, ← List.singleton_append]
      exact hx.append (ih fun y hy => h y (by simp [hy]))

/-- The cursor for the next page is not null exactly if the last edge has one. -/
lemma getD_ne_null_iff {page : Page} (hpage : page ∈ pages)
    (hpresent : Json.null ∉ pages.flatMap Page.cursors) :
    page.lastCursor?.getD .null ≠ .null ↔ page.lastCursor?.isSome := by
  cases hcursor : page.lastCursor? with
  | none => simp
  | some cursor =>
      have hmem : cursor ∈ pages.flatMap Page.cursors :=
        List.mem_flatMap.mpr ⟨page, hpage, Page.mem_cursors_of_lastCursor? hcursor⟩
      have hne : cursor ≠ .null := fun h => hpresent (h ▸ hmem)
      simpa using hne

/-- **Requests made once**: if the cursors that edges have differ, no two requests of a run carry
the same variables exactly if every page that is followed by a request ends with an edge that has a
cursor. The same condition says that all requests but the first have a cursor. -/
theorem requests_nodup_iff (plan : PagePlan) (hstrategy : plan.strategy = .relayForward)
    (execute : Executor σ) (limit : Nat) (server server' : σ) (harvest : Harvest Page)
    (asked : List Request)
    (hrun : (plan.pages execute.logged limit).run (server, []) = (harvest, (server', asked)))
    (hdistinct : (harvest.items.flatMap Page.cursors).Nodup)
    (hpresent : Json.null ∉ harvest.items.flatMap Page.cursors) :
    ((asked.map Request.bindings).Nodup ↔
        ∀ page ∈ harvest.items.take (asked.length - 1), page.lastCursor?.isSome)
      ∧ ((∀ request ∈ asked.tail, Keyed.get? request.bindings "after" ≠ some .null) ↔
        ∀ page ∈ harvest.items.take (asked.length - 1), page.lastCursor?.isSome) := by
  obtain ⟨asked', hasked, hasks⟩ := asks_of_run hrun
  rw [List.nil_append] at hasked
  subst hasked
  have hbindings := hasks.bindings_eq hstrategy
  rcases asked with _ | ⟨first, rest⟩
  · simp
  rw [List.length_cons, List.take_succ_cons, ← List.map_take] at hbindings
  rw [List.length_cons, Nat.add_sub_cancel, List.tail_cons]
  have hcursor (page : Page) (hpage : page ∈ harvest.items.take rest.length) :
      page.lastCursor?.getD .null ≠ .null ↔ page.lastCursor?.isSome :=
    getD_ne_null_iff (List.mem_of_mem_take hpage) hpresent
  constructor
  · rw [hbindings, List.nodup_map_iff plan.asking_injective, List.nodup_cons, List.mem_map]
    constructor
    · rintro ⟨hnull, -⟩ page hpage
      exact (hcursor page hpage).mp fun h => hnull ⟨page, hpage, h⟩
    · intro hall
      refine ⟨?_, ?_⟩
      · rintro ⟨page, hpage, h⟩
        exact (hcursor page hpage).mpr (hall page hpage) h
      · -- the cursors asked for are among those that edges have
        have hsub : ((harvest.items.take rest.length).map
            fun page => page.lastCursor?.getD .null).Sublist
            ((harvest.items.take rest.length).flatMap Page.cursors) := by
          refine map_sublist_flatMap fun page hpage => ?_
          obtain ⟨cursor, hsome⟩ := Option.isSome_iff_exists.mp (hall page hpage)
          rw [hsome, Option.getD_some]
          exact Page.mem_cursors_of_lastCursor? hsome
        have htake : ((harvest.items.take rest.length).flatMap Page.cursors).Sublist
            (harvest.items.flatMap Page.cursors) := by
          rw [List.flatMap_def, List.flatMap_def]
          exact ((List.take_sublist _ _).map _).flatten
        exact (hsub.trans htake).nodup hdistinct
  · have hrest : rest.map Request.bindings = (harvest.items.take rest.length).map
        fun page => plan.asking (page.lastCursor?.getD .null) := by
      rw [List.map_cons, List.map_cons, List.cons.injEq, List.map_map] at hbindings
      exact hbindings.2
    have hmem : (∀ request ∈ rest, Keyed.get? request.bindings "after" ≠ some .null)
        ↔ ∀ b ∈ rest.map Request.bindings, Keyed.get? b "after" ≠ some .null := by
      simp
    rw [hmem, hrest, List.forall_mem_map]
    refine forall₂_congr fun page hpage => ?_
    rw [get?_asking, ne_eq, Option.some.injEq]
    exact hcursor page hpage

/-! ### A page that is asked for twice -/

/-- A listing by cursor that selects no cursor. -/
def cursorlessListing : Document :=
  [.operation
    { kind := .query, name? := some "LIST_Foo",
      variableDefinitions := [{ name := "first", type := .named "Int" },
        { name := "after", type := .named "String" }],
      directives := [],
      selections := [.field none "allFoo"
        [⟨"first", .variable "first"⟩, ⟨"after", .variable "after"⟩] []
        (some [.plain "edges" (some [.plain "node" (some [.plain "id"])]),
          .plain "pageInfo" (some [.plain "hasNextPage"])])] }]

/-- The plan of that listing. -/
def cursorlessPlan : PagePlan :=
  { document := cursorlessListing, operation := "LIST_Foo", strategy := .relayForward,
    path := ["allFoo"], bindings := [] }

/-- A response with a page of one edge. -/
def edgeResponse (edge : Keyed Json) (more : Bool) : Json :=
  .obj [("data", .obj [("allFoo", .obj
    [("edges", .arr [.obj edge]), ("pageInfo", .obj [("hasNextPage", .bool more)])])])]

/-- A server of two pages. -/
def twoPageServer (first second : Keyed Json) : PreparedServer :=
  { queues := [("LIST_Foo", [edgeResponse first true, edgeResponse second false])] }

/-- The edge of a node without a cursor. -/
def bareEdge (id : String) : Keyed Json := [("node", .obj [("id", .str id)])]

/-- No cursors that are present are equal or null, but both requests ask for the first page. -/
theorem requests_repeat :
    PagePlan.make cursorlessListing "LIST_Foo" [] [.limitOffset, .relayForward]
        = .ok cursorlessPlan
      ∧ ∃ pages server asked,
        (cursorlessPlan.pages PreparedServer.answer.logged 2).run
          (twoPageServer (bareEdge "1") (bareEdge "2"), []) = (⟨pages, none⟩, (server, asked))
        ∧ (pages.flatMap Page.cursors).Nodup ∧ Json.null ∉ pages.flatMap Page.cursors
        ∧ asked.map Request.bindings = [cursorBindings .null, cursorBindings .null]
        ∧ ¬ (asked.map Request.bindings).Nodup := by
  refine ⟨by cbv, _, _, _, rfl, List.nodup_nil, List.not_mem_nil, rfl, ?_⟩
  exact List.not_nodup_cons_of_mem List.mem_cons_self

/-- Two pages with cursors: each of them is asked for once. -/
theorem requests_nodup_iff_two_pages :
    cursorlessPlan.strategy = .relayForward
      ∧ ∃ harvest server asked,
        (cursorlessPlan.pages PreparedServer.answer.logged 2).run
          (twoPageServer (("cursor", .str "c1") :: bareEdge "1")
            (("cursor", .str "c2") :: bareEdge "2"), []) = (harvest, (server, asked))
        ∧ harvest.items.flatMap Page.cursors = [.str "c1", .str "c2"]
        ∧ (harvest.items.flatMap Page.cursors).Nodup
        ∧ Json.null ∉ harvest.items.flatMap Page.cursors
        ∧ asked.length = 2 ∧ (asked.map Request.bindings).Nodup := by
  have hdistinct : [Json.str "c1", Json.str "c2"].Nodup := by simp
  have hpresent : Json.null ∉ [Json.str "c1", Json.str "c2"] := by simp
  have hrequests := requests_nodup_iff cursorlessPlan rfl PreparedServer.answer 2
    (twoPageServer (("cursor", .str "c1") :: bareEdge "1") (("cursor", .str "c2") :: bareEdge "2"))
    _ _ _ rfl hdistinct hpresent
  refine ⟨rfl, _, _, _, rfl, rfl, hdistinct, hpresent, rfl, hrequests.1.mpr ?_⟩
  intro page hpage
  cases List.mem_singleton.mp hpage
  rfl

end PagePlan

end RemoteNodes
