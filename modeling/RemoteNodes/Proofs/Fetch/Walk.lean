import Mathlib.Tactic
import RemoteNodes.Fetch.Pagination
import RemoteNodes.Proofs.Fetch.Session
/-!
Walks as runs: the pages that a walk reads, one step for each page.

* `PagePlan.Walked`: a walk from a state reads pages and stops.
* `PagePlan.run_pages_iff`: the pages that a plan gathers without a fault are those of a walk.
* `PagePlan.Walked.run_walk`: what any other use of the pages gathers.
* `PagePlan.Walked.logged`: what the server was asked on the way.
-/

namespace RemoteNodes.PagePlan

variable {σ α : Type} {plan : PagePlan} {execute : Executor σ}

/-- A walk from a state reads pages and stops: the last state says that no page comes next. -/
inductive Walked (plan : PagePlan) (execute : Executor σ) :
    PageState → σ → List Page → σ → Prop where
  | done {state : PageState} {server : σ} (h : state.hasNext = false) :
      Walked plan execute state server [] server
  | next {state : PageState} {server server₁ server₂ : σ} {response : Json} {page : Page}
      {pages : List Page} (h : state.hasNext = true)
      (hresponse : (execute (plan.request state)).outcome server = (.ok response, server₁))
      (hpage : plan.page state response = .ok page)
      (hrest : Walked plan execute page.state server₁ pages server₂) :
      Walked plan execute state server (page :: pages) server₂

/-! ### Walks and their runs -/

lemma run_walk_done {pick : Page → StateM σ (Harvest α)} {state : PageState}
    (h : state.hasNext = false) (limit : Nat) (server : σ) :
    (plan.walk execute pick limit state).run server = (⟨[], none⟩, server) := by
  cases limit with
  | zero => simp [walk, h]; rfl
  | succ limit => simp [walk, h]; rfl

/-- One step of a walk whose page is read and picked without a fault. -/
lemma run_walk_next {pick : Page → StateM σ (Harvest α)} {state : PageState}
    {server server₁ server₂ server₃ : σ} {response : Json} {page : Page} {limit : Nat}
    {items : List α} {rest : Harvest α} (h : state.hasNext = true)
    (hresponse : (execute (plan.request state)).outcome server = (.ok response, server₁))
    (hpage : plan.page state response = .ok page)
    (hpick : (pick page).run server₁ = (⟨items, none⟩, server₂))
    (hrest : (plan.walk execute pick limit page.state).run server₂ = (rest, server₃)) :
    (plan.walk execute pick (limit + 1) state).run server
      = (⟨items ++ rest.items, rest.fault?⟩, server₃) := by
  have hrun : ((execute (plan.request state)).run).run server = (.ok response, server₁) :=
    hresponse
  rw [walk]
  simp only [h, Bool.not_true, Bool.false_eq_true, if_false]
  rw [run_bind_of_eq hrun]
  simp only [hpage]
  rw [run_bind_of_eq hpick, if_neg (by simp), run_bind_of_eq hrest]
  rfl

/-- A walk whose next request fails ends there. -/
lemma run_walk_failed {pick : Page → StateM σ (Harvest α)} {state : PageState}
    {server server₁ : σ} {fault : Fault} (h : state.hasNext = true)
    (hfault : (execute (plan.request state)).outcome server = (.error fault, server₁))
    (limit : Nat) :
    (plan.walk execute pick (limit + 1) state).run server = (⟨[], some fault⟩, server₁) := by
  have hrun : ((execute (plan.request state)).run).run server = (.error fault, server₁) := hfault
  rw [walk]
  simp only [h, Bool.not_true, Bool.false_eq_true, if_false]
  rw [run_bind_of_eq hrun]
  rfl

/-- A walk whose next response holds no page ends there. -/
lemma run_walk_refused {pick : Page → StateM σ (Harvest α)} {state : PageState}
    {server server₁ : σ} {response : Json} {fault : Fault} (h : state.hasNext = true)
    (hresponse : (execute (plan.request state)).outcome server = (.ok response, server₁))
    (hpage : plan.page state response = .error fault) (limit : Nat) :
    (plan.walk execute pick (limit + 1) state).run server = (⟨[], some fault⟩, server₁) := by
  have hrun : ((execute (plan.request state)).run).run server = (.ok response, server₁) :=
    hresponse
  rw [walk]
  simp only [h, Bool.not_true, Bool.false_eq_true, if_false]
  rw [run_bind_of_eq hrun]
  simp only [hpage]
  rfl

/-- A walk ends with a page that could not be used. -/
lemma run_walk_unused {pick : Page → StateM σ (Harvest α)} {state : PageState}
    {server server₁ server₂ : σ} {response : Json} {page : Page} {items : List α} {fault : Fault}
    (h : state.hasNext = true)
    (hresponse : (execute (plan.request state)).outcome server = (.ok response, server₁))
    (hpage : plan.page state response = .ok page)
    (hpick : (pick page).run server₁ = (⟨items, some fault⟩, server₂)) (limit : Nat) :
    (plan.walk execute pick (limit + 1) state).run server = (⟨items, some fault⟩, server₂) := by
  have hrun : ((execute (plan.request state)).run).run server = (.ok response, server₁) :=
    hresponse
  rw [walk]
  simp only [h, Bool.not_true, Bool.false_eq_true, if_false]
  rw [run_bind_of_eq hrun]
  simp only [hpage]
  rw [run_bind_of_eq hpick, if_pos (by simp)]
  rfl

/-- What a walk gathers when each page is used in a way that leaves the server alone. -/
theorem Walked.run_walk {pick : Page → StateM σ (Harvest α)} {chunks : List (List α)}
    {state : PageState} {server server' : σ} {pages : List Page}
    (hwalk : Walked plan execute state server pages server')
    (hpick : List.Forall₂ (fun page items => ∀ s, (pick page).run s = (⟨items, none⟩, s))
      pages chunks)
    {limit : Nat} (hlimit : pages.length ≤ limit) :
    (plan.walk execute pick limit state).run server = (⟨chunks.flatten, none⟩, server') := by
  induction hwalk generalizing limit chunks with
  | done h =>
      cases hpick
      exact run_walk_done h limit _
  | @next state server server₁ server₂ response page pages h hresponse hpage _ ih =>
      rcases hpick with _ | ⟨hfirst, hothers⟩
      obtain ⟨limit, rfl⟩ : ∃ n, limit = n + 1 :=
        Nat.exists_eq_succ_of_ne_zero (by simp at hlimit; omega)
      have hlength : pages.length ≤ limit := by simpa using hlimit
      have hrest := ih hothers hlength
      rw [run_walk_next h hresponse hpage (hfirst server₁) hrest]
      rfl

/-- A walk that gathers its pages without a fault has read them and stopped. -/
lemma walked_of_run {state : PageState} {server server' : σ} {pages : List Page} {limit : Nat}
    (h : (plan.walk execute (fun page => pure ⟨[page], none⟩) limit state).run server
      = (⟨pages, none⟩, server')) :
    Walked plan execute state server pages server' ∧ pages.length ≤ limit := by
  induction limit generalizing state server pages with
  | zero =>
      cases hnext : state.hasNext with
      | true => simp [walk, hnext] at h; cases h
      | false =>
          rw [run_walk_done hnext] at h
          cases h
          exact ⟨.done hnext, by simp⟩
  | succ limit ih =>
      cases hnext : state.hasNext with
      | false =>
          rw [run_walk_done hnext] at h
          cases h
          exact ⟨.done hnext, by simp⟩
      | true =>
          rcases hout : (execute (plan.request state)).outcome server with
            ⟨fault | response, server₁⟩
          · rw [run_walk_failed hnext hout] at h
            cases h
          cases hpage : plan.page state response with
          | error fault =>
              rw [run_walk_refused hnext hout hpage] at h
              cases h
          | ok page =>
              rcases hrest : (plan.walk execute (fun page => pure ⟨[page], none⟩) limit
                page.state).run server₁ with ⟨⟨rest, fault?⟩, server₂⟩
              rw [run_walk_next hnext hout hpage (by rfl) hrest] at h
              cases h
              obtain ⟨hwalk, hlength⟩ := ih hrest
              exact ⟨.next hnext hout hpage hwalk, by simpa using hlength⟩

/-- The pages that a plan gathers without a fault are those of a walk from its start. -/
theorem run_pages_iff {limit : Nat} {server server' : σ} {pages : List Page} :
    (plan.pages execute limit).run server = (⟨pages, none⟩, server')
      ↔ Walked plan execute plan.strategy.start server pages server' ∧ pages.length ≤ limit := by
  constructor
  · exact walked_of_run
  · rintro ⟨hwalk, hlimit⟩
    have hpick : List.Forall₂ (fun page items =>
        ∀ s : σ, (pure ⟨[page], none⟩ : StateM σ (Harvest Page)).run s = (⟨items, none⟩, s))
        pages (pages.map fun page => [page]) := by
      rw [List.forall₂_map_right_iff, List.forall₂_same]
      exact fun _ _ _ => rfl
    have hrun := hwalk.run_walk hpick hlimit
    rwa [← List.flatMap_def, List.flatMap_singleton'] at hrun

/-! ### The requests of a walk -/

/-- The requests for pages, the first of them for the page after a state. -/
def requests (plan : PagePlan) (state : PageState) : List Page → List Request
  | [] => []
  | page :: pages => plan.request state :: plan.requests page.state pages

lemma length_requests (state : PageState) (pages : List Page) :
    (plan.requests state pages).length = pages.length := by
  induction pages generalizing state with
  | nil => rfl
  | cons page pages ih => rw [requests, List.length_cons, ih, List.length_cons]

/-- An executor that keeps its requests walks the same pages, and has kept the requests for
them. -/
theorem Walked.logged {state : PageState} {server server' : σ} {pages : List Page}
    (hwalk : Walked plan execute state server pages server') (asked : List Request) :
    Walked plan execute.logged state (server, asked) pages
      (server', asked ++ plan.requests state pages) := by
  induction hwalk generalizing asked with
  | done h => simpa [requests] using Walked.done h
  | @next state server server₁ server₂ response page pages h hresponse hpage _ ih =>
      refine .next h (Executor.outcome_logged hresponse asked) hpage ?_
      have hrest := ih (asked ++ [plan.request state])
      rwa [List.append_assoc, List.singleton_append] at hrest

end RemoteNodes.PagePlan
