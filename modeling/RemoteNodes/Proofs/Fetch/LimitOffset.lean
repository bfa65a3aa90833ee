import Mathlib.Tactic
import RemoteNodes.Proofs.Fetch.Combine
import RemoteNodes.Proofs.Keyed
/-!
Walking a list by limit and offset. Between two pages the offset counts the items that are read,
and the result is the beginning of the list up to there.

* `PagePlan.ServesSlices`: a server that answers with slices of a list.
* `PagePlan.sliceState`: the invariant, the state after a number of items; `addPage_slice` keeps it.
* `PagePlan.exists_walked_slices`: the walk from any offset.
* `PagePlan.fetchAll_slices`: **completeness**, with the requests that are sent.
-/

namespace RemoteNodes.PagePlan

variable {σ : Type} {plan : PagePlan} {execute : Executor σ} {list : List Json}

/-- The server has a list at the path of a plan. Asked for at most `size` items from an offset, it
answers with data in which the path leads to them. -/
def ServesSlices (plan : PagePlan) (list : List Json) (execute : Executor σ) : Prop :=
  ∀ (request : Request) (size offset : Nat) (server : σ),
    request.operation = plan.operation →
    Keyed.get? request.bindings "limit" = some (.int size) →
    Keyed.get? request.bindings "offset" = some (.int offset) →
    ∃ fields data server', (execute request).outcome server = (.ok (.obj fields), server')
      ∧ Keyed.get? fields "data" = some data
      ∧ Json.Leads plan.path data (.arr ((list.drop offset).take size))

/-- A request for the page at an offset: the variables of the plan, with those of the page written
over them. -/
structure AsksSlice (plan : PagePlan) (request : Request) (offset : Nat) : Prop where
  operation : request.operation = plan.operation
  limit : Keyed.get? request.bindings "limit" = some (.int pageSize)
  offset : Keyed.get? request.bindings "offset" = some (.int offset)
  others : ∀ name, name ≠ "limit" → name ≠ "offset" →
    Keyed.get? request.bindings name = Keyed.get? plan.bindings name

/-! ### The state between two pages -/

/-- The state in which `offset` items of a list are read. -/
def sliceState (list : List Json) (offset : Nat) (hasNext : Bool) : PageState :=
  ⟨[("limit", .int pageSize), ("offset", .int offset)], .arr (list.take offset), hasNext⟩

lemma asksSlice_request (plan : PagePlan) (list : List Json) (offset : Nat) (hasNext : Bool) :
    plan.AsksSlice (plan.request (sliceState list offset hasNext)) offset := by
  have hget (name : String) :
      Keyed.get? (plan.request (sliceState list offset hasNext)).bindings name
        = (Keyed.get? [("limit", .int pageSize), ("offset", .int offset)] name).or
          (Keyed.get? plan.bindings name) := by
    refine Keyed.get?_overlay ?_ plan.bindings name
    simp [Keyed.keys, sliceState]
  refine ⟨rfl, hget "limit", hget "offset", fun name hlimit hoffset => ?_⟩
  rw [hget]
  simp [Keyed.get?, hlimit.symm, hoffset.symm]

/-- One page: the slice at the offset is added, and a full one is not the last. -/
lemma addPage_slice (list : List Json) (offset : Nat) (hasNext : Bool) :
    PageStrategy.limitOffset.addPage (sliceState list offset hasNext)
        (.arr ((list.drop offset).take 100))
      = .ok (sliceState list (offset + 100) (decide (100 ≤ list.length - offset))) := by
  have helements : ((Json.arr ((list.drop offset).take 100)).or (.arr [])).elements
      = .ok ((list.drop offset).take 100) := Json.elements_or rfl
  have hoffset : numberOr 0 (sliceState list offset hasNext).bindings "offset"
      = .ok (offset : Int) := by
    cases offset <;> rfl
  refine PageStrategy.addPage_limitOffset.mpr
    ⟨pageSize, offset, list.take offset, _, rfl, hoffset, rfl, helements, ?_⟩
  have hfull : (((list.drop offset).take 100).length == pageSize)
      = decide (100 ≤ list.length - offset) := by
    have hlength : ((list.drop offset).take 100).length = min 100 (list.length - offset) := by
      rw [List.length_take, List.length_drop]
    rw [hlength, Bool.eq_iff_iff, beq_iff_eq, decide_eq_true_iff, pageSize]
    omega
  rw [hfull, ← List.take_add]
  rfl

/-! ### The walk -/

/-- The page at an offset is asked for, answered and read. -/
lemma exists_page_slice (hstrategy : plan.strategy = .limitOffset) (hpath : plan.path ≠ [])
    (hserves : ServesSlices plan list execute) (offset : Nat) (hasNext : Bool) (server : σ) :
    ∃ response page server',
      (execute (plan.request (sliceState list offset hasNext))).outcome server
        = (.ok response, server')
      ∧ plan.page (sliceState list offset hasNext) response = .ok page
      ∧ page.state = sliceState list (offset + 100) (decide (100 ≤ list.length - offset))
      ∧ (page.data.holder? plan.path).isSome := by
  have hasks := asksSlice_request plan list offset hasNext
  obtain ⟨fields, data, server', hresponse, hdata, hleads⟩ :=
    hserves _ 100 offset server hasks.operation hasks.limit hasks.offset
  have hadd := addPage_slice list offset hasNext
  rw [← hstrategy] at hadd
  obtain ⟨page, hpage, hstate, hholder⟩ := page_of_leads hpath hdata hleads hadd
  exact ⟨_, page, server', hresponse, hpage, hstate, hholder⟩

/-- The walk from an offset asks for every full slice that is left and for one more, in order. Its
result is the whole list. -/
theorem exists_walked_slices (hstrategy : plan.strategy = .limitOffset) (hpath : plan.path ≠ [])
    (hserves : ServesSlices plan list execute) {n offset : Nat}
    (hn : (list.length - offset) / 100 = n) (server : σ) :
    ∃ pages server', Walked plan execute (sliceState list offset true) server pages server'
      ∧ (stateAfter (sliceState list offset true) pages).result = .arr list
      ∧ (∀ page ∈ pages, (page.data.holder? plan.path).isSome)
      ∧ List.Forall₂ plan.AsksSlice (plan.requests (sliceState list offset true) pages)
          (List.range' offset (n + 1) 100) := by
  induction n generalizing offset server with
  | zero =>
      -- a short slice is the last page
      obtain ⟨response, page, server', hresponse, hpage, hstate, hholder⟩ :=
        exists_page_slice hstrategy hpath hserves offset true server
      rw [decide_eq_false (by omega)] at hstate
      have hdone : page.state.hasNext = false := by rw [hstate]; rfl
      refine ⟨[page], server', .next rfl hresponse hpage (.done hdone), ?_, by simpa using hholder,
        .cons (asksSlice_request plan list offset true) .nil⟩
      rw [stateAfter, List.foldl_cons, List.foldl_nil, hstate, sliceState,
        List.take_of_length_le (by omega)]
  | succ n ih =>
      -- a full slice is followed by the walk from its end
      obtain ⟨response, page, server₁, hresponse, hpage, hstate, hholder⟩ :=
        exists_page_slice hstrategy hpath hserves offset true server
      rw [decide_eq_true (by omega)] at hstate
      have hrest : (list.length - (offset + 100)) / 100 = n := by omega
      obtain ⟨pages, server', hwalk, hresult, hholders, hasks⟩ := ih hrest server₁
      rw [← hstate] at hwalk hresult hasks
      refine ⟨page :: pages, server', .next rfl hresponse hpage hwalk, hresult, ?_,
        .cons (asksSlice_request plan list offset true) hasks⟩
      intro p hp
      rcases List.mem_cons.mp hp with rfl | hp
      · exact hholder
      · exact hholders p hp

/-- **Completeness by limit and offset**: all items of the list are handed out in order, after one
request for each full page and one more, at the offsets 0, 100, 200 and so on. -/
theorem fetchAll_slices (plan : PagePlan) (hstrategy : plan.strategy = .limitOffset)
    (hpath : plan.path ≠ []) (list : List Json) (execute : Executor σ)
    (hserves : ServesSlices plan list execute) (limit : Nat)
    (hlimit : list.length / 100 + 1 ≤ limit) (server : σ) :
    ∃ server' asked,
      (plan.fetchAll execute limit).outcome server = (.ok list, server')
      ∧ (plan.fetchAll execute.logged limit).outcome (server, []) = (.ok list, server', asked)
      ∧ asked.length = list.length / 100 + 1
      ∧ List.Forall₂ plan.AsksSlice asked (List.range' 0 (list.length / 100 + 1) 100) := by
  have hstart : plan.strategy.start = sliceState list 0 true := by rw [hstrategy]; rfl
  have hn : (list.length - 0) / 100 = list.length / 100 := by rw [Nat.sub_zero]
  obtain ⟨pages, server', hwalk, hresult, hholders, hasks⟩ :=
    exists_walked_slices hstrategy hpath hserves hn server
  have hlength : (plan.requests (sliceState list 0 true) pages).length = list.length / 100 + 1 := by
    rw [hasks.length_eq, List.length_range']
  have hpages : pages.length ≤ limit := by
    rw [← length_requests, hlength]
    exact hlimit
  rw [← hstart] at hwalk hresult hasks hlength
  obtain ⟨hfetch, hlogged⟩ := hwalk.outcome_fetchAll_logged hpages hholders
  have hitems : plan.strategy.items (.arr list) = .ok list := by
    rw [hstrategy]
    exact Json.elements_or rfl
  rw [hresult, hitems] at hfetch hlogged
  exact ⟨server', _, hfetch, hlogged, hlength, hasks⟩

/-! ### A server of slices -/

/-- A response with items below the first item of another list. -/
def sliceResponse (items : List Json) : Keyed Json :=
  [("data", .obj [("site", .arr [.obj [("allFoo", .arr items)]])])]

/-- A server of a list. -/
def sliceServer (list : List Json) : Executor Unit := fun request =>
  match Keyed.get? request.bindings "limit", Keyed.get? request.bindings "offset" with
  | some (.int size), some (.int offset) =>
      return .obj (sliceResponse ((list.drop offset.toNat).take size.toNat))
  | _, _ => throw .malformed

/-- The plan to walk that list, with a variable of its own. -/
def slicePlan : PagePlan :=
  { document := [], operation := "LIST_Foo", strategy := .limitOffset,
    path := ["site", "allFoo"], bindings := [("locale", .str "en")] }

lemma servesSlices_sliceServer (list : List Json) :
    ServesSlices slicePlan list (sliceServer list) := by
  intro request size offset server _ hsize hoffset
  refine ⟨sliceResponse ((list.drop offset).take size), _, server, ?_, rfl,
    .key rfl (.first [] (.key rfl (.here _)))⟩
  rw [sliceServer, hsize, hoffset]
  rfl

/-- Two full pages need a third request. -/
theorem fetchAll_slices_two_hundred :
    slicePlan.strategy = .limitOffset ∧ slicePlan.path ≠ []
      ∧ ServesSlices slicePlan (List.replicate 200 .null) (sliceServer (List.replicate 200 .null))
      ∧ ∃ asked,
        (slicePlan.fetchAll (sliceServer (List.replicate 200 .null)).logged 3).outcome ((), [])
          = (.ok (List.replicate 200 .null), (), asked)
        ∧ asked.length = 3 := by
  have hserves := servesSlices_sliceServer (List.replicate 200 .null)
  have hlimit : (List.replicate 200 Json.null).length / 100 + 1 ≤ 3 := by
    rw [List.length_replicate]
  obtain ⟨_, asked, -, hlogged, hlength, -⟩ :=
    fetchAll_slices slicePlan rfl (by decide) _ _ hserves 3 hlimit ()
  rw [List.length_replicate] at hlength
  exact ⟨rfl, by decide, hserves, asked, hlogged, hlength⟩

end RemoteNodes.PagePlan
