import Mathlib.Tactic
import RemoteNodes.Proofs.Fetch.Task
import RemoteNodes.Proofs.Fetch.Walk
/-!
What has been listed when all nodes of a type could be fetched, against an executor that gives every
request its answer.

* `Executor.answering`: such an executor, which needs no state.
* `Harvest.forall₂_of_run_each`, `Harvest.exists_chunks`, `PagePlan.exists_walked`: what was
  gathered without a fault, part by part.
* `Sourcing.Lists`: the nodes that an operation lists, page by page, each with its paginated fields.
* `Sourcing.exists_lists`: **fetched nodes are those that the operations of the type list, in
  order**.
-/

namespace RemoteNodes

variable {α β : Type}

/-- An executor that gives every request its answer. -/
def Executor.answering (answer : Request → Except Fault Json) : Executor Unit :=
  fun request => liftM (answer request)

/-! ### What was gathered -/

lemma Session.run_of_outcome_gather {work : StateM Unit (Harvest α)} {items : List α}
    (h : (gather work).outcome () = (.ok items, ())) : work.run () = (⟨items, none⟩, ()) := by
  rcases hwork : work.run () with ⟨⟨gathered, fault?⟩, _⟩
  rw [gather, outcome_bind_ok (outcome_lift_of_run hwork)] at h
  cases fault? with
  | none => cases h; rfl
  | some fault => cases h

namespace Harvest

/-- Without a fault, each item has given what was gathered in its place. -/
lemma forall₂_of_run_each {f : α → Session Unit β} {xs : List α} {ys : List β}
    (h : (each f xs).run () = (⟨ys, none⟩, ())) :
    List.Forall₂ (fun x y => (f x).outcome () = (.ok y, ())) xs ys := by
  induction xs generalizing ys with
  | nil => cases h; exact .nil
  | cons x xs ih =>
      rcases hx : (f x).run.run () with ⟨fault | y, _⟩
      · rw [each, run_bind_of_eq hx] at h
        cases h
      · rcases hxs : (each f xs).run () with ⟨⟨rest, fault?⟩, _⟩
        rw [each, run_bind_of_eq hx] at h
        simp only at h
        rw [run_bind_of_eq hxs] at h
        cases h
        exact .cons hx (ih hxs)

/-- Without a fault, each item has given a part of what was gathered. -/
lemma exists_chunks {f : α → StateM Unit (Harvest β)} {xs : List α} {ys : List β}
    (h : (flatEach f xs).run () = (⟨ys, none⟩, ())) :
    ∃ chunks, List.Forall₂ (fun x chunk => (f x).run () = (⟨chunk, none⟩, ())) xs chunks
      ∧ chunks.flatten = ys := by
  induction xs generalizing ys with
  | nil => cases h; exact ⟨[], .nil, rfl⟩
  | cons x xs ih =>
      rcases hx : (f x).run () with ⟨⟨first, _ | fault⟩, _⟩
      · rcases hxs : (flatEach f xs).run () with ⟨⟨rest, fault?⟩, _⟩
        rw [flatEach, run_bind_of_eq hx, if_neg (by simp), run_bind_of_eq hxs] at h
        cases h
        obtain ⟨chunks, hchunks, hrest⟩ := ih hxs
        exact ⟨first :: chunks, .cons hx hchunks, by rw [List.flatten_cons, hrest]⟩
      · rw [flatEach, run_bind_of_eq hx, if_pos (by simp)] at h
        cases h

end Harvest

/-- Without a fault, a walk has read its pages to the last one, and each has given a part of what
was gathered. -/
lemma PagePlan.exists_walked {plan : PagePlan} {execute : Executor Unit}
    {pick : Page → StateM Unit (Harvest α)} {limit : ℕ} {state : PageState} {items : List α}
    (h : (plan.walk execute pick limit state).run () = (⟨items, none⟩, ())) :
    ∃ pages chunks, plan.Walked execute state () pages ()
      ∧ List.Forall₂ (fun page chunk => (pick page).run () = (⟨chunk, none⟩, ())) pages chunks
      ∧ chunks.flatten = items := by
  induction limit generalizing state items with
  | zero =>
      cases hnext : state.hasNext with
      | true => simp [walk, hnext] at h; cases h
      | false =>
          rw [run_walk_done hnext] at h
          cases h
          exact ⟨[], [], .done hnext, .nil, rfl⟩
  | succ limit ih =>
      cases hnext : state.hasNext with
      | false =>
          rw [run_walk_done hnext] at h
          cases h
          exact ⟨[], [], .done hnext, .nil, rfl⟩
      | true =>
          rcases hout : (execute (plan.request state)).outcome () with ⟨fault | response, _⟩
          · rw [run_walk_failed hnext hout] at h
            cases h
          cases hpage : plan.page state response with
          | error fault =>
              rw [run_walk_refused hnext hout hpage] at h
              cases h
          | ok page =>
              rcases hpick : (pick page).run () with ⟨⟨picked, _ | fault⟩, _⟩
              · rcases hrest : (plan.walk execute pick limit page.state).run ()
                  with ⟨⟨rest, fault?⟩, _⟩
                rw [run_walk_next hnext hout hpage hpick hrest] at h
                cases h
                obtain ⟨pages, chunks, hwalked, hchunks, rfl⟩ := ih hrest
                exact ⟨page :: pages, picked :: chunks, .next hnext hout hpage hwalked,
                  .cons hpick hchunks, rfl⟩
              · rw [run_walk_unused hnext hout hpage hpick] at h
                cases h

/-! ### What was listed -/

namespace Sourcing

/-- The nodes that an operation lists: those of its pages, one page after the other, each with its
paginated fields. -/
def Lists (s : Sourcing Unit) (d : NodeDefinition) (operation : String) (nodes : List Json) :
    Prop :=
  ∃ plan pages chunks, PagePlan.make d.document operation [] s.strategies = .ok plan
    ∧ plan.Walked s.execute plan.strategy.start () pages ()
    ∧ List.Forall₂ (fun page chunk => ∃ listed, plan.strategy.items page.value = .ok listed
        ∧ List.Forall₂ (fun node merged => (s.addFields d node).outcome () = (.ok merged, ()))
          listed chunk) pages chunks
    ∧ chunks.flatten = nodes

/-- All nodes of a type are what its operations list. -/
lemma outcome_allNodes {σ : Type} {s : Sourcing σ} {d : NodeDefinition} {type : String}
    (hdefinition : s.definition type = .ok d) (server : σ) :
    (s.allNodes type).outcome server
      = (Session.gather (Harvest.flatEach (s.nodeList type) d.document.listOperations)).outcome
        server := by
  have hfound : (s.definition type : Except Fault NodeDefinition) = .ok d := by
    rw [hdefinition]
    rfl
  rw [allNodes, Session.outcome_bind_lift hfound]

variable {s : Sourcing Unit} {d : NodeDefinition} {type operation : String} {nodes : List Json}

/-- An operation that gave nodes without a fault lists them. -/
lemma lists_of_run_nodeList (hdefinition : s.definition type = .ok d)
    (h : (s.nodeList type operation).run () = (⟨nodes, none⟩, ())) : s.Lists d operation nodes := by
  simp only [nodeList] at h
  split at h
  · cases h
  · rename_i d' plan hprepared
    obtain ⟨_, hd, hprepared⟩ := bind_eq_ok.mp hprepared
    obtain ⟨_, hplan, heq⟩ := bind_eq_ok.mp hprepared
    cases heq
    obtain rfl := Except.ok.inj (hdefinition.symm.trans hd)
    obtain ⟨pages, chunks, hwalked, hchunks, hnodes⟩ := PagePlan.exists_walked h
    refine ⟨plan, pages, chunks, hplan, hwalked, hchunks.imp fun page chunk hchunk => ?_, hnodes⟩
    rw [pageNodes] at hchunk
    split at hchunk
    · cases hchunk
    · rename_i listed hitems
      exact ⟨listed, hitems, Harvest.forall₂_of_run_each hchunk⟩

/-- When all nodes of a type could be fetched, they are those that its operations list, one
operation after the other. -/
theorem exists_lists (hdefinition : s.definition type = .ok d)
    (h : (s.allNodes type).outcome () = (.ok nodes, ())) :
    ∃ chunks, List.Forall₂ (s.Lists d) d.document.listOperations chunks
      ∧ chunks.flatten = nodes := by
  rw [outcome_allNodes hdefinition] at h
  obtain ⟨chunks, hchunks, hnodes⟩ := Harvest.exists_chunks (Session.run_of_outcome_gather h)
  exact ⟨chunks, hchunks.imp fun operation chunk => lists_of_run_nodeList hdefinition, hnodes⟩

end Sourcing

end RemoteNodes
