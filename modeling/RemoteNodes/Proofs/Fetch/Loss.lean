import Mathlib.Tactic
import RemoteNodes.Fetch.Prepared
import RemoteNodes.Proofs.Fetch.Combine
/-!
When pages are lost. A walk puts its pages together in the last response, so what it hands out at
its end depends on the shape of that response.

* `PagePlan.fetchAll_eq_append_iff`: **the exact condition** under which all items are handed out:
  the path leads to an object in the last response, or there is one page only. Otherwise the items
  of the last page are all that is left.
* `PagePlan.fetchAll_drops_items`: two pages of which the first is lost.
-/

namespace RemoteNodes.PagePlan

variable {σ : Type} {plan : PagePlan} {execute : Executor σ} {server server' : σ} {limit : Nat}
  {before : List Page} {last : Page} {front : List (List Json)} {final : List Json}

/-- The items of a walk, those of its last page apart. -/
lemma mapM_items_append
    (hfront : before.mapM (fun page => plan.strategy.items page.value) = .ok front)
    (hfinal : plan.strategy.items last.value = .ok final) :
    (before ++ [last]).mapM (fun page => plan.strategy.items page.value)
      = .ok (front ++ [final]) := by
  have hlast : [last].mapM (fun page => plan.strategy.items page.value) = .ok [final] :=
    mapM_eq_ok.mpr (.cons hfinal .nil)
  rw [List.mapM_append]
  exact bind_eq_ok.mpr ⟨front, hfront, bind_eq_ok.mpr ⟨[final], hlast, rfl⟩⟩

/-- The items before the last page are some if there is a page before it. -/
lemma Walked.flatten_ne_nil
    (hwalk : Walked plan execute plan.strategy.start server (before ++ [last]) server')
    (hfront : before.mapM (fun page => plan.strategy.items page.value) = .ok front)
    (hbefore : before ≠ []) : front.flatten ≠ [] := by
  cases mapM_eq_ok.mp hfront with
  | nil => exact absurd rfl hbefore
  | @cons page ys pages others hys _ =>
      obtain ⟨second, rest, hrest⟩ : ∃ second rest, pages ++ [last] = second :: rest :=
        List.exists_cons_of_ne_nil (by simp)
      rw [List.cons_append, hrest] at hwalk
      have hne := hwalk.items_ne_nil plan.strategy.sized_start hys
      simp [hne]

/-- With an object to write to, or with one page only, all items are handed out. -/
lemma Walked.outcome_eq_append
    (hwalk : Walked plan execute plan.strategy.start server (before ++ [last]) server')
    (hlimit : (before ++ [last]).length ≤ limit)
    (hfront : before.mapM (fun page => plan.strategy.items page.value) = .ok front)
    (hfinal : plan.strategy.items last.value = .ok final)
    (h : (last.data.holder? plan.path).isSome ∨ before = []) :
    (plan.fetchAll execute limit).outcome server = (.ok (front.flatten ++ final), server') := by
  cases hholder : last.data.holder? plan.path with
  | some fields =>
      have hresult := hwalk.items_result (items_start plan.strategy)
        (mapM_items_append hfront hfinal)
      rw [stateAfter, List.foldl_concat] at hresult
      rw [hwalk.outcome_fetchAll_of_holder? hlimit hholder, hresult]
      simp
  | none =>
      obtain rfl : before = [] := by simpa [hholder] using h
      cases hfront
      rw [hwalk.outcome_fetchAll_of_no_holder hlimit hholder, hfinal]
      rfl

/-- **Completeness of a walk that stops**: all items of all pages are handed out, as a listing does
page by page, exactly if the last response has an object to write to or is the only one. -/
theorem fetchAll_eq_append_iff (plan : PagePlan) (execute : Executor σ) (limit : Nat)
    (server server' : σ) (pages : List Page)
    (hstop : (plan.pages execute limit).run server = (⟨pages, none⟩, server'))
    (hfit : ∀ page ∈ pages, plan.strategy.fits page.value = true) :
    ∃ before last front final, pages = before ++ [last]
      ∧ before.mapM (fun page => plan.strategy.items page.value) = .ok front
      ∧ plan.strategy.items last.value = .ok final
      ∧ ((plan.fetchAll execute limit).outcome server = (.ok (front.flatten ++ final), server')
          ↔ (last.data.holder? plan.path).isSome ∨ before = [])
      ∧ (last.data.holder? plan.path = none →
          (plan.fetchAll execute limit).outcome server = (.ok final, server'))
      ∧ ∀ (s : Sourcing σ) (d : NodeDefinition) (type operation : String),
          s.execute = execute → s.pageLimit = limit → s.definition type = .ok d →
          d.document.fieldOperations = [] →
          PagePlan.make d.document operation [] s.strategies = .ok plan →
          (s.nodeList type operation).run server = (⟨front.flatten ++ final, none⟩, server') := by
  obtain ⟨hwalk, hlimit⟩ := run_pages_iff.mp hstop
  obtain ⟨before, last, rfl⟩ := hwalk.exists_last plan.strategy.hasNext_start
  obtain ⟨front, hfront⟩ : ∃ front,
      before.mapM (fun page => plan.strategy.items page.value) = .ok front :=
    exists_mapM fun page hpage => PageStrategy.exists_items (hfit page (by simp [hpage]))
  obtain ⟨final, hfinal⟩ := PageStrategy.exists_items (hfit last (by simp))
  have hnone (hholder : last.data.holder? plan.path = none) :
      (plan.fetchAll execute limit).outcome server = (.ok final, server') := by
    rw [hwalk.outcome_fetchAll_of_no_holder hlimit hholder, hfinal]
  refine ⟨before, last, front, final, rfl, hfront, hfinal, ⟨fun hall => ?_, ?_⟩, hnone, ?_⟩
  · cases hholder : last.data.holder? plan.path with
    | some fields => exact .inl rfl
    | none =>
        -- the items of the last page alone would be all items
        rw [hnone hholder, Prod.mk.injEq, Except.ok.injEq, List.self_eq_append_left] at hall
        by_contra hbefore
        exact hwalk.flatten_ne_nil hfront (fun h => hbefore (.inr h)) hall.1
  · exact hwalk.outcome_eq_append hlimit hfront hfinal
  · rintro s d type operation rfl rfl hdefinition hfields hplan
    have hrun := Sourcing.run_nodeList hdefinition hfields hplan hwalk hlimit
      (mapM_items_append hfront hfinal)
    rwa [List.flatten_concat] at hrun

/-! ### A page that is lost -/

/-- A listing by cursor below another field. -/
def nestedListing : Document :=
  [.operation
    { kind := .query, name? := some "LIST_Foo",
      variableDefinitions := [{ name := "first", type := .named "Int" },
        { name := "after", type := .named "String" }],
      directives := [],
      selections := [.plain "site" (some [.field none "allFoo"
        [⟨"first", .variable "first"⟩, ⟨"after", .variable "after"⟩] []
        (some [.plain "edges" (some [.plain "cursor", .plain "node" (some [.plain "id"])]),
          .plain "pageInfo" (some [.plain "hasNextPage"])])])] }]

/-- The plan of that listing. -/
def nestedPlan : PagePlan :=
  { document := nestedListing, operation := "LIST_Foo", strategy := .relayForward,
    path := ["site", "allFoo"], bindings := [] }

/-- A server with one edge. Its second response has no object on the way to the edges. -/
def fadingServer : PreparedServer :=
  { queues := [("LIST_Foo",
      [.obj [("data", .obj [("site", .obj [("allFoo", .obj
          [("edges", .arr [.obj [("cursor", .str "c1"), ("node", .obj [("id", .str "1")])]]),
            ("pageInfo", .obj [("hasNextPage", .bool true)])])])])],
        .obj [("data", .obj [("site", .null)])]])] }

/-- Both pages are of the right shape and the walk stops, but what it hands out is the items of
the second page only. -/
theorem fetchAll_drops_items :
    PagePlan.make nestedListing "LIST_Foo" [] [.limitOffset, .relayForward] = .ok nestedPlan
      ∧ ∃ pages server,
        (nestedPlan.pages PreparedServer.answer 2).run fadingServer = (⟨pages, none⟩, server)
        ∧ (∀ page ∈ pages, nestedPlan.strategy.fits page.value = true)
        ∧ pages.mapM (fun page => nestedPlan.strategy.items page.value)
          = .ok [[.obj [("id", .str "1")]], []]
        ∧ (nestedPlan.fetchAll PreparedServer.answer 2).outcome fadingServer
          = (.ok [], server) :=
  ⟨by cbv, _, _, rfl, List.all_eq_true.mp rfl, rfl, rfl⟩

/-- The condition at two pages, which do not meet it. -/
theorem fetchAll_eq_append_iff_nested :
    ∃ pages server,
      (nestedPlan.pages PreparedServer.answer 2).run fadingServer = (⟨pages, none⟩, server)
      ∧ (∀ page ∈ pages, nestedPlan.strategy.fits page.value = true)
      ∧ ∃ before last front final, pages = before ++ [last]
        ∧ before.mapM (fun page => nestedPlan.strategy.items page.value) = .ok front
        ∧ nestedPlan.strategy.items last.value = .ok final
        ∧ ((nestedPlan.fetchAll PreparedServer.answer 2).outcome fadingServer
            = (.ok (front.flatten ++ final), server)
          ↔ (last.data.holder? nestedPlan.path).isSome ∨ before = []) := by
  have hfit := List.all_eq_true.mp (rfl : ((((nestedPlan.pages PreparedServer.answer 2).run
    fadingServer).1.items).all fun page => nestedPlan.strategy.fits page.value) = true)
  obtain ⟨before, last, front, final, hpages, hfront, hfinal, hiff, -⟩ :=
    fetchAll_eq_append_iff nestedPlan PreparedServer.answer 2 fadingServer _ _ rfl hfit
  exact ⟨_, _, rfl, hfit, before, last, front, final, hpages, hfront, hfinal, hiff⟩

end RemoteNodes.PagePlan
