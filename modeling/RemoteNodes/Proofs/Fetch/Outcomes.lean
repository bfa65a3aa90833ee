import Mathlib.Tactic
import RemoteNodes.Fetch.Source
import RemoteNodes.Proofs.Failure
import RemoteNodes.Proofs.Fetch.Walk
/-!
What work against a server can come to, whatever the server does: the faults that it can fail with,
and what its values are like.

* `Session.Within`, `Harvest.Within`: some faults, and some property of the values.
* `Session.Within.bind`, `Session.Within.gather`, `Session.Within.foldlM`: steps put together.
* `Harvest.within_each`, `Harvest.within_flatEach`, `PagePlan.within_walk`: what is gathered, with
  an invariant of the states between the pages.
* `Harvest.run_each_singleton`, `PagePlan.run_walk_last`: a single item and a last page.
-/

namespace RemoteNodes

variable {σ α β : Type} {P : Fault → Prop} {Q : α → Prop} {R : β → Prop}

/-- All that was gathered has a property, and the fault that ended the work early is one of some
faults. -/
def Harvest.Within (P : Fault → Prop) (Q : α → Prop) (h : Harvest α) : Prop :=
  (∀ fault, h.fault? = some fault → P fault) ∧ ∀ a ∈ h.items, Q a

/-- Against every server work gives a value with a property or fails with one of some faults. -/
def Session.Within (P : Fault → Prop) (Q : α → Prop) (work : Session σ α) : Prop :=
  ∀ server, FailsIn P (work.outcome server).1 ∧ ∀ a, (work.outcome server).1 = .ok a → Q a

namespace Session

/-- A step that fails ends the work. -/
lemma outcome_bind_error {work : Session σ α} {server server' : σ} {fault : Fault}
    (h : outcome work server = (.error fault, server')) (next : α → Session σ β) :
    outcome (work >>= next) server = (.error fault, server') := by
  rw [outcome, ExceptT.run_bind]
  exact run_bind_of_eq h _

/-- The step that gathers ends as gathering ended. -/
lemma outcome_gather_of_run {work : StateM σ (Harvest α)} {server server' : σ} {h : Harvest α}
    (hwork : work.run server = (h, server')) :
    outcome (gather work) server = (h.complete, server') := by
  rw [gather, outcome_bind_ok (outcome_lift_of_run hwork)]
  cases h.complete <;> rfl

namespace Within

lemma of_ok {work : Session σ α} (h : ∀ server, ∃ a, (work.outcome server).1 = .ok a ∧ Q a) :
    Within P Q work := by
  intro server
  obtain ⟨a, ha, hQ⟩ := h server
  rw [ha]
  refine ⟨.ok, fun a' ha' => ?_⟩
  cases ha'
  exact hQ

lemma pure {a : α} (h : Q a) : Within P Q (Pure.pure a : Session σ α) :=
  of_ok fun _ => ⟨a, rfl, h⟩

lemma mono {P' : Fault → Prop} {Q' : α → Prop} {work : Session σ α} (h : Within P Q work)
    (hP : ∀ fault, P fault → P' fault) (hQ : ∀ a, Q a → Q' a) : Within P' Q' work :=
  fun server => ⟨(h server).1.mono hP, fun a ha => hQ a ((h server).2 a ha)⟩

lemma lift {x : Except Fault α} (hfails : FailsIn P x) (hQ : ∀ a, x = .ok a → Q a) :
    Within P Q (liftM x : Session σ α) := fun _ => ⟨hfails, hQ⟩

/-- A check whose causes of failure stand for faults. -/
lemma lift_mapError {ε : Type} {x : Except ε α} {f : ε → Fault} (h : ∀ cause, P (f cause)) :
    Within P (fun a => x = .ok a) (liftM (x.mapError f) : Session σ α) := by
  refine .lift (.mapError h) fun a ha => ?_
  cases x with
  | error cause => cases ha
  | ok a' => exact congrArg Except.ok (Except.ok.inj ha)

/-- The second step goes on from what the first one gives. -/
lemma bind {work : Session σ α} {next : α → Session σ β} (hwork : Within P Q work)
    (hnext : ∀ a, Q a → Within P R (next a)) : Within P R (work >>= next) := by
  intro server
  obtain ⟨hfails, hvalue⟩ := hwork server
  rcases houtcome : work.outcome server with ⟨fault | a, server'⟩
  · rw [outcome_bind_error houtcome]
    rw [houtcome] at hfails
    exact ⟨.error (hfails fault rfl), fun _ h => nomatch h⟩
  · rw [outcome_bind_ok houtcome]
    rw [houtcome] at hvalue
    exact hnext a (hvalue a rfl) server'

/-- A step over a list that keeps a property keeps it to the end. -/
lemma foldlM {f : α → β → Session σ α} {xs : List β} {a : α} (ha : Q a)
    (h : ∀ x ∈ xs, ∀ a, Q a → Within P Q (f a x)) : Within P Q (xs.foldlM f a) := by
  induction xs generalizing a with
  | nil => exact pure ha
  | cons x xs ih =>
      obtain ⟨hx, hxs⟩ := List.forall_mem_cons.mp h
      rw [List.foldlM_cons]
      exact (hx a ha).bind fun a' ha' => ih ha' hxs

/-- What was gathered, as a step of a session. -/
lemma gather {work : StateM σ (Harvest α)}
    (h : ∀ server, Harvest.Within P Q (work.run server).1) :
    Within P (fun items => ∀ a ∈ items, Q a) (gather work) := by
  intro server
  obtain ⟨hfault, hitems⟩ := h server
  rcases hwork : work.run server with ⟨⟨items, fault?⟩, server'⟩
  rw [hwork] at hfault hitems
  rw [outcome_gather_of_run hwork]
  cases fault? with
  | none =>
      refine ⟨.ok, fun items' h => ?_⟩
      cases h
      exact hitems
  | some fault => exact ⟨.error (hfault fault rfl), fun _ h => nomatch h⟩

end Within

end Session

namespace Harvest

lemma within_nil : Within P Q (⟨[], none⟩ : Harvest α) :=
  ⟨fun _ h => (nomatch h), List.forall_mem_nil _⟩

lemma within_fault {fault : Fault} (h : P fault) : Within P Q (⟨[], some fault⟩ : Harvest α) := by
  refine ⟨fun fault' h' => ?_, List.forall_mem_nil _⟩
  cases h'
  exact h

/-- What was gathered first stands before what was gathered then. -/
lemma Within.append {h rest : Harvest α} (hfirst : Within P Q h) (hrest : Within P Q rest) :
    Within P Q ⟨h.items ++ rest.items, rest.fault?⟩ :=
  ⟨hrest.1, List.forall_mem_append.mpr ⟨hfirst.2, hrest.2⟩⟩

/-- What is gathered for each item. -/
lemma within_each {f : β → Session σ α} {xs : List β} (h : ∀ x ∈ xs, Session.Within P Q (f x))
    (server : σ) : Within P Q ((each f xs).run server).1 := by
  induction xs generalizing server with
  | nil => exact within_nil
  | cons x xs ih =>
      obtain ⟨hx, hxs⟩ := List.forall_mem_cons.mp h
      obtain ⟨hfails, hvalue⟩ := hx server
      rcases houtcome : (f x).run.run server with ⟨fault | y, server'⟩
      · have hfault : P fault := hfails fault (congrArg Prod.fst houtcome)
        rw [each, run_bind_of_eq houtcome]
        exact within_fault hfault
      · have hy : Q y := hvalue y (congrArg Prod.fst houtcome)
        obtain ⟨hrest, hitems⟩ := ih hxs server'
        rw [each, run_bind_of_eq houtcome]
        exact ⟨hrest, List.forall_mem_cons.mpr ⟨hy, hitems⟩⟩

/-- All that is gathered for the items. -/
lemma within_flatEach {f : β → StateM σ (Harvest α)} {xs : List β}
    (h : ∀ x ∈ xs, ∀ server, Within P Q ((f x).run server).1) (server : σ) :
    Within P Q ((flatEach f xs).run server).1 := by
  induction xs generalizing server with
  | nil => exact within_nil
  | cons x xs ih =>
      obtain ⟨hx, hxs⟩ := List.forall_mem_cons.mp h
      have hfirst := hx server
      rcases hrun : (f x).run server with ⟨first, server'⟩
      rw [hrun] at hfirst
      rw [flatEach, run_bind_of_eq hrun]
      split
      · exact hfirst
      · exact hfirst.append (ih hxs server')

/-- Gathering for a single item ends as the step for it. -/
lemma run_each_singleton {f : β → Session σ α} {x : β} {server server' : σ}
    {outcome : Except Fault α} (h : (f x).outcome server = (outcome, server')) :
    ∃ gathered, (each f [x]).run server = (gathered, server')
      ∧ gathered.complete = (fun y => [y]) <$> outcome := by
  have hrun : (f x).run.run server = (outcome, server') := h
  rw [each, run_bind_of_eq hrun]
  cases outcome with
  | error fault => exact ⟨⟨[], some fault⟩, rfl, rfl⟩
  | ok y => exact ⟨⟨[y], none⟩, rfl, rfl⟩

lemma run_flatEach_singleton {f : β → StateM σ (Harvest α)} {x : β} {server server' : σ}
    {gathered : Harvest α} (h : (f x).run server = (gathered, server')) :
    (flatEach f [x]).run server = (gathered, server') := by
  obtain ⟨items, fault?⟩ := gathered
  rw [flatEach, run_bind_of_eq h]
  cases fault? with
  | none =>
      exact congrArg (fun items => ((⟨items, none⟩ : Harvest α), server')) (List.append_nil items)
  | some fault => rfl

end Harvest

/-- A walk gathers from its last page what is picked from it. -/
lemma PagePlan.run_walk_last {plan : PagePlan} {execute : Executor σ}
    {pick : Page → StateM σ (Harvest α)} {state : PageState} {server server₁ server₂ : σ}
    {response : Json} {page : Page} {gathered : Harvest α} (h : state.hasNext = true)
    (hresponse : (execute (plan.request state)).outcome server = (.ok response, server₁))
    (hpage : plan.page state response = .ok page) (hlast : page.state.hasNext = false)
    (hpick : (pick page).run server₁ = (gathered, server₂)) (limit : Nat) :
    (plan.walk execute pick (limit + 1) state).run server = (gathered, server₂) := by
  obtain ⟨items, fault?⟩ := gathered
  cases fault? with
  | none =>
      rw [run_walk_next h hresponse hpage hpick (run_walk_done hlast limit server₂),
        List.append_nil]
  | some fault => exact run_walk_unused h hresponse hpage hpick limit

/-- What a walk gathers, if responses have a property, pages keep an invariant of the states between
them and what is picked from each page is within bounds. -/
lemma PagePlan.within_walk {plan : PagePlan} {execute : Executor σ}
    {pick : Page → StateM σ (Harvest α)} {Answer : Json → Prop} (Inv : PageState → Prop)
    (hanswer : ∀ state, Session.Within P Answer (execute (plan.request state)))
    (hpage : ∀ state response, Inv state → Answer response → FailsIn P (plan.page state response))
    (hinv : ∀ state response page, plan.page state response = .ok page → Inv page.state)
    (hpick : ∀ state response page, Answer response → plan.page state response = .ok page →
      ∀ server, Harvest.Within P Q ((pick page).run server).1)
    (hlimit : P .tooManyPages) (limit : Nat) {state : PageState} (hstate : Inv state)
    (server : σ) : Harvest.Within P Q ((plan.walk execute pick limit state).run server).1 := by
  induction limit generalizing state server with
  | zero =>
      rw [walk]
      split
      · exact Harvest.within_fault hlimit
      · exact Harvest.within_nil
  | succ limit ih =>
      cases hnext : state.hasNext with
      | false =>
          rw [run_walk_done hnext]
          exact Harvest.within_nil
      | true =>
          obtain ⟨hfails, hresponse⟩ := hanswer state server
          rcases hout : (execute (plan.request state)).outcome server
            with ⟨fault | response, server₁⟩
          · rw [hout] at hfails
            rw [run_walk_failed hnext hout]
            exact Harvest.within_fault (hfails fault rfl)
          have hanswers : Answer response := by
            rw [hout] at hresponse
            exact hresponse response rfl
          cases hread : plan.page state response with
          | error fault =>
              rw [run_walk_refused hnext hout hread]
              exact Harvest.within_fault (hpage state response hstate hanswers fault hread)
          | ok page =>
              have hpicked := hpick state response page hanswers hread server₁
              rcases hrun : (pick page).run server₁ with ⟨⟨picked, _ | fault⟩, server₂⟩
              · have hrest := ih (hinv state response page hread) server₂
                rw [hrun] at hpicked
                rcases hrestrun : (plan.walk execute pick limit page.state).run server₂
                  with ⟨rest, server₃⟩
                rw [hrestrun] at hrest
                rw [run_walk_next hnext hout hread hrun hrestrun]
                exact hpicked.append hrest
              · rw [hrun] at hpicked
                rw [run_walk_unused hnext hout hread hrun]
                exact hpicked

end RemoteNodes
