import Mathlib.Tactic
import RemoteNodes.Fetch.Source
import RemoteNodes.Proofs.Fetch.Strategy
import RemoteNodes.Proofs.Fetch.Walk
import RemoteNodes.Proofs.Json.Paths
/-!
Pages put together. The result of a walk is written into its last response and read from there
again, which loses the pages before the last one if the last response has no object to write to.

* `PagePlan.page_eq_ok`: what a response must be to hold a page.
* `PagePlan.Walked.items_result`: the result of a walk has the items of its pages in order.
* `PagePlan.Walked.outcome_fetchAll`: what a walk hands out at its end.
* `Sourcing.run_nodeList`: a listing hands out the items of its pages, page by page.
-/

namespace RemoteNodes

/-- The data of the response of a page. -/
def Page.data (page : Page) : Json := (page.response.field? "data").getD .null

namespace PagePlan

variable {σ : Type} {plan : PagePlan} {execute : Executor σ} {state : PageState} {page last : Page}
  {pages before : List Page} {server server' : σ} {limit : Nat}

/-! ### Plans -/

/-- A plan that is made has the path of a field. -/
lemma path_ne_nil_of_make {document : Document} {operation : String} {bindings : Keyed Json}
    {strategies : List PageStrategy} (h : make document operation bindings strategies = .ok plan) :
    plan.path ≠ [] := by
  obtain ⟨names, -, h⟩ := bind_eq_ok.mp h
  obtain ⟨strategy, -, h⟩ := bind_eq_ok.mp h
  obtain ⟨path, -, h⟩ := bind_eq_ok.mp h
  split at h
  · cases h
  · rename_i hpath
    cases h
    simpa using hpath

/-! ### Pages of responses -/

/-- A response holds a page exactly if it has data and its value is a page for the strategy. -/
lemma page_eq_ok {response : Json} :
    plan.page state response = .ok page ↔
      page.response = response ∧ (∃ fields, response = .obj fields) ∧ page.data ≠ .null
        ∧ page.value = page.data.atPath plan.path
        ∧ plan.strategy.addPage state page.value = .ok page.state := by
  rw [PagePlan.page, bind_eq_ok]
  constructor
  · rintro ⟨data, hdata, h⟩
    obtain ⟨state', hstate, h⟩ := bind_eq_ok.mp h
    cases h
    obtain ⟨fields, rfl, hget, hne⟩ := responseData_eq_ok.mp hdata
    have hsame : Page.data ⟨.obj fields, data.atPath plan.path, state'⟩ = data := by
      simp [Page.data, Json.field?, hget]
    rw [hsame]
    exact ⟨rfl, ⟨fields, rfl⟩, hne, rfl, hstate⟩
  · obtain ⟨response', value, state'⟩ := page
    rintro ⟨rfl, ⟨fields, rfl⟩, hne, hvalue, hstate⟩
    have hget : Keyed.get? fields "data" = some (Page.data ⟨.obj fields, value, state'⟩) := by
      cases hget : Keyed.get? fields "data" with
      | none => simp [Page.data, Json.field?, hget] at hne
      | some data => simp [Page.data, Json.field?, hget]
    refine ⟨_, responseData_eq_ok.mpr ⟨fields, rfl, hget, hne⟩, ?_⟩
    rw [← hvalue]
    exact bind_eq_ok.mpr ⟨state', hstate, rfl⟩

/-- A response whose data leads to a value holds that value as a page, in an object to write to. -/
lemma page_of_leads {fields : Keyed Json} {data value : Json} {state' : PageState}
    (hpath : plan.path ≠ []) (hdata : Keyed.get? fields "data" = some data)
    (hleads : Json.Leads plan.path data value)
    (hadd : plan.strategy.addPage state value = .ok state') :
    ∃ page, plan.page state (.obj fields) = .ok page ∧ page.state = state'
      ∧ (page.data.holder? plan.path).isSome := by
  have hsame : Page.data ⟨.obj fields, value, state'⟩ = data := by
    simp [Page.data, Json.field?, hdata]
  obtain ⟨holder, hholder⟩ := hleads.exists_holder? hpath
  have hne : data ≠ .null := by
    rintro rfl
    simp at hholder
  refine ⟨⟨.obj fields, value, state'⟩, page_eq_ok.mpr ⟨rfl, ⟨fields, rfl⟩, ?_, ?_, hadd⟩, rfl, ?_⟩
  · rwa [hsame]
  · rw [hsame, hleads.atPath]
  · rw [hsame, hholder]
    rfl

/-- Every page of a walk is the page in its response, after some state. -/
lemma Walked.exists_page (hwalk : Walked plan execute state server pages server')
    (hpage : page ∈ pages) : ∃ state, plan.page state page.response = .ok page := by
  induction hwalk with
  | done h => cases hpage
  | @next state _ _ _ _ _ _ h hresponse hread _ ih =>
      rcases List.mem_cons.mp hpage with rfl | hrest
      · obtain ⟨rfl, -⟩ := page_eq_ok.mp hread
        exact ⟨state, hread⟩
      · exact ih hrest

/-- What every page of a walk is: a response with data, and the value at the path in it. -/
lemma Walked.reads (hwalk : Walked plan execute state server pages server')
    (hpage : page ∈ pages) :
    (∃ fields, page.response = .obj fields) ∧ page.data ≠ .null
      ∧ page.value = page.data.atPath plan.path := by
  obtain ⟨state, hread⟩ := hwalk.exists_page hpage
  obtain ⟨-, hobj, hdata, hvalue, -⟩ := page_eq_ok.mp hread
  exact ⟨hobj, hdata, hvalue⟩

/-- After every page of a walk there is a result. -/
lemma Walked.result_ne_null (hwalk : Walked plan execute state server pages server')
    (hpage : page ∈ pages) : page.state.result ≠ .null := by
  obtain ⟨state, hread⟩ := hwalk.exists_page hpage
  obtain ⟨-, -, -, -, hadd⟩ := page_eq_ok.mp hread
  exact PageStrategy.result_ne_null hadd

/-- A walk with a page to read reads one. -/
lemma Walked.exists_last (hwalk : Walked plan execute state server pages server')
    (h : state.hasNext = true) : ∃ before last, pages = before ++ [last] := by
  cases hwalk with
  | done h' => simp [h] at h'
  | next h hresponse hread hrest => exact ⟨_, _, (List.dropLast_append_getLast (by simp)).symm⟩

/-! ### Items of a walk -/

/-- The state after pages. -/
def stateAfter (state : PageState) (pages : List Page) : PageState :=
  pages.foldl (fun _ page => page.state) state

/-- The result of a walk has the items from before it and those of its pages, in order. -/
theorem Walked.items_result (hwalk : Walked plan execute state server pages server')
    {xs : List Json} {chunks : List (List Json)}
    (hxs : plan.strategy.items state.result = .ok xs)
    (hchunks : pages.mapM (fun page => plan.strategy.items page.value) = .ok chunks) :
    plan.strategy.items (stateAfter state pages).result = .ok (xs ++ chunks.flatten) := by
  induction hwalk generalizing xs chunks with
  | done h =>
      cases hchunks
      simpa [stateAfter] using hxs
  | @next state server server₁ server₂ response page pages h hresponse hread _ ih =>
      rw [List.mapM_cons, bind_eq_ok] at hchunks
      obtain ⟨ys, hys, hchunks⟩ := hchunks
      obtain ⟨rest, hrest, hchunks⟩ := bind_eq_ok.mp hchunks
      cases hchunks
      obtain ⟨-, -, -, -, hadd⟩ := page_eq_ok.mp hread
      rw [List.flatten_cons, ← List.append_assoc]
      exact ih (PageStrategy.items_addPage hadd hxs hys) hrest

/-- A page that is followed by another has items. -/
lemma Walked.items_ne_nil {next : Page}
    (hwalk : Walked plan execute state server (page :: next :: pages) server')
    (hsize : plan.strategy.Sized state) {ys : List Json}
    (hys : plan.strategy.items page.value = .ok ys) : ys ≠ [] := by
  cases hwalk with
  | next h hresponse hread hrest =>
      obtain ⟨-, -, -, -, hadd⟩ := page_eq_ok.mp hread
      cases hrest with
      | next hnext _ _ _ => exact PageStrategy.items_ne_nil hsize hadd hnext hys

/-! ### The end of a walk -/

/-- What the last response of a walk holds once all pages are put together in it. -/
lemma key_putTogether (hobj : ∃ fields, page.response = .obj fields) :
    (plan.putTogether page).key "data" = .ok (page.data.setAt plan.path page.state.result) := by
  obtain ⟨response, value, state⟩ := page
  obtain ⟨fields, rfl⟩ := hobj
  refine Json.key_eq_ok.mpr ⟨_, rfl, ?_⟩
  rw [Keyed.get?_put_self]
  rfl

/-- A walk ends with its last response, in which all pages are put together. -/
lemma Walked.outcome_combine
    (hwalk : Walked plan execute plan.strategy.start server pages server')
    (hlimit : pages.length ≤ limit) :
    (plan.combine execute limit).outcome server
      = (.ok (pages.getLast?.map plan.putTogether), server') := by
  have hrun := run_pages_iff.mpr ⟨hwalk, hlimit⟩
  exact Session.outcome_bind_ok (Session.outcome_gather hrun) _

/-- What a walk hands out: the items that stand at the path in its last response, once all pages
are put together in it. -/
theorem Walked.outcome_fetchAll
    (hwalk : Walked plan execute plan.strategy.start server (before ++ [last]) server')
    (hlimit : (before ++ [last]).length ≤ limit) :
    (plan.fetchAll execute limit).outcome server
      = (plan.strategy.items ((last.data.setAt plan.path last.state.result).atPath plan.path),
        server') := by
  have hcombine := hwalk.outcome_combine hlimit
  rw [List.getLast?_concat] at hcombine
  obtain ⟨hobj, -, -⟩ :=
    hwalk.reads (List.mem_append_right before (List.mem_singleton_self last))
  rw [fetchAll, Session.outcome_bind_ok hcombine]
  simp only [Option.map_some]
  rw [key_putTogether hobj]
  rfl

/-- A walk whose last response has an object to write to hands out its result. -/
theorem Walked.outcome_fetchAll_of_holder?
    (hwalk : Walked plan execute plan.strategy.start server (before ++ [last]) server')
    (hlimit : (before ++ [last]).length ≤ limit) {fields : Keyed Json}
    (hholder : last.data.holder? plan.path = some fields) :
    (plan.fetchAll execute limit).outcome server
      = (plan.strategy.items last.state.result, server') := by
  rw [hwalk.outcome_fetchAll hlimit, Json.atPath_setAt hholder]

/-- Without an object to write to only the items of the last page are handed out. -/
theorem Walked.outcome_fetchAll_of_no_holder
    (hwalk : Walked plan execute plan.strategy.start server (before ++ [last]) server')
    (hlimit : (before ++ [last]).length ≤ limit)
    (hholder : last.data.holder? plan.path = none) :
    (plan.fetchAll execute limit).outcome server
      = (plan.strategy.items last.value, server') := by
  obtain ⟨-, -, hvalue⟩ :=
    hwalk.reads (List.mem_append_right before (List.mem_singleton_self last))
  rw [hwalk.outcome_fetchAll hlimit, Json.setAt_eq_self hholder, ← hvalue]

/-- A walk whose responses all have an object to write to hands out its result, and an executor
that keeps its requests has kept those of the walk. -/
theorem Walked.outcome_fetchAll_logged
    (hwalk : Walked plan execute plan.strategy.start server pages server')
    (hlimit : pages.length ≤ limit)
    (hholders : ∀ page ∈ pages, (page.data.holder? plan.path).isSome) :
    (plan.fetchAll execute limit).outcome server
        = (plan.strategy.items (stateAfter plan.strategy.start pages).result, server')
      ∧ (plan.fetchAll execute.logged limit).outcome (server, [])
        = (plan.strategy.items (stateAfter plan.strategy.start pages).result, server',
            plan.requests plan.strategy.start pages) := by
  obtain ⟨before, last, rfl⟩ := hwalk.exists_last plan.strategy.hasNext_start
  obtain ⟨fields, hfields⟩ := Option.isSome_iff_exists.mp (hholders last (by simp))
  have hlogged := hwalk.logged []
  rw [List.nil_append] at hlogged
  have hafter : stateAfter plan.strategy.start (before ++ [last]) = last.state := by
    rw [stateAfter, List.foldl_concat]
  rw [hafter]
  exact ⟨hwalk.outcome_fetchAll_of_holder? hlimit hfields,
    hlogged.outcome_fetchAll_of_holder? hlimit hfields⟩

lemma items_start (strategy : PageStrategy) : strategy.items strategy.start.result = .ok [] := by
  cases strategy <;> rfl

end PagePlan

/-! ### Listings -/

namespace Sourcing

variable {σ : Type} {s : Sourcing σ} {d : NodeDefinition}

/-- A type without operations for fields leaves its nodes as they are. -/
lemma outcome_addFields (h : d.document.fieldOperations = []) (node : Json) (server : σ) :
    (s.addFields d node).outcome server = (.ok node, server) := by
  rw [addFields]
  simp only [h, List.isEmpty_nil, if_true]
  rfl

/-- A listing hands out the items of its pages, page by page. -/
theorem run_nodeList {type operation : String} {plan : PagePlan} {server server' : σ}
    {pages : List Page} {chunks : List (List Json)}
    (hdefinition : s.definition type = .ok d) (hfields : d.document.fieldOperations = [])
    (hplan : PagePlan.make d.document operation [] s.strategies = .ok plan)
    (hwalk : PagePlan.Walked plan s.execute plan.strategy.start server pages server')
    (hlimit : pages.length ≤ s.pageLimit)
    (hchunks : pages.mapM (fun page => plan.strategy.items page.value) = .ok chunks) :
    (s.nodeList type operation).run server = (⟨chunks.flatten, none⟩, server') := by
  have hpick : List.Forall₂ (fun page items =>
      ∀ server : σ, (s.pageNodes d plan page).run server = (⟨items, none⟩, server))
      pages chunks := by
    refine (mapM_eq_ok.mp hchunks).imp fun page items hitems server => ?_
    rw [pageNodes, hitems]
    simpa using Harvest.run_each
      (fun node _ server' => outcome_addFields (s := s) hfields node server') server
  have hprepared : (do
      let d ← s.definition type
      return (d, ← PagePlan.make d.document operation [] s.strategies)
        : Except ConfigurationFault (NodeDefinition × PagePlan)) = .ok (d, plan) :=
    bind_eq_ok.mpr ⟨d, hdefinition, bind_eq_ok.mpr ⟨plan, hplan, rfl⟩⟩
  rw [nodeList, hprepared]
  exact hwalk.run_walk hpick hlimit

end Sourcing

end RemoteNodes
