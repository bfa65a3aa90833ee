import Mathlib.Tactic
import RemoteNodes.Fetch.Source
import RemoteNodes.Proofs.Fetch.Session
/-!
Work that asks, as a task of its own. While a task waits for an answer other tasks go on, so tasks
that run side by side are a system in which one step answers one pending request.

* `Task`: work up to its next request; `Task.run`: what it does against a server.
* `Task.value`: what it comes to when answers depend on requests alone; `Task.value_run`.
* `Task.Step`, `Task.run_values`: **tasks side by side come to what each comes to alone**, in
  whatever order requests are answered; `Task.wellFounded_step`: no run goes on for ever.
* `Performed`: work that a task does against every server; `performed_allNodes`: **all nodes of a
  type are fetched by a task**.
-/

namespace RemoteNodes

/-- Work up to its end: it is done, or it asks something and goes on with what comes back. -/
inductive Task (α : Type) where
  | done (value : α)
  | ask (request : Request) (next : Except Fault Json → Task α)

variable {α β σ : Type}

namespace Task

/-- What a task does against a server. -/
def run (execute : Executor σ) : Task α → StateM σ α
  | done value => pure value
  | ask request next => do
    let response ← (execute request).run
    (next response).run execute

/-- A task that goes on with what another one comes to. -/
def bind (next : α → Task β) : Task α → Task β
  | done value => next value
  | ask request rest => ask request fun response => (rest response).bind next

lemma run_bind (execute : Executor σ) (task : Task α) (next : α → Task β) :
    (task.bind next).run execute = task.run execute >>= fun a => (next a).run execute := by
  induction task with
  | done value => rfl
  | ask request rest ih =>
      rw [bind, run, run, bind_assoc]
      exact congrArg _ (funext ih)

/-! ### Tasks on their own -/

variable {answer : Request → Except Fault Json}

/-- What a task comes to, if each request has its answer. -/
def value (answer : Request → Except Fault Json) : Task α → α
  | done value => value
  | ask request next => (next (answer request)).value answer

/-- The number of requests that a task still makes. -/
def remaining (answer : Request → Except Fault Json) : Task α → ℕ
  | done _ => 0
  | ask request next => (next (answer request)).remaining answer + 1

/-- What a task has come to, if it is done. -/
def result? : Task α → Option α
  | done value => some value
  | ask .. => none

/-- Whether all tasks are done. -/
def Ended (tasks : List (Task α)) : Prop := (tasks.mapM result?).isSome = true

/-- Against a server whose answers depend on the requests alone, a task comes to its value. -/
lemma value_run {execute : Executor σ}
    (hanswer : ∀ request server, ((execute request).outcome server).1 = answer request)
    (task : Task α) (server : σ) : ((task.run execute).run server).1 = task.value answer := by
  induction task generalizing server with
  | done value => rfl
  | ask request next ih =>
      rcases hrun : (execute request).run.run server with ⟨response, server'⟩
      have hresponse : response = answer request := by
        rw [← hanswer request server, Session.outcome, hrun]
      rw [run, run_bind_of_eq hrun, value, ← hresponse]
      exact ih response server'

/-! ### Tasks side by side -/

/-- One pending request is answered, and its task goes on to its next one. -/
inductive Step (answer : Request → Except Fault Json) : List (Task α) → List (Task α) → Prop
  | answered (before : List (Task α)) (request : Request) (next : Except Fault Json → Task α)
      (after : List (Task α)) :
      Step answer (before ++ ask request next :: after) (before ++ next (answer request) :: after)

/-- Tasks that lead to others, in any number of steps. -/
abbrev Reaches (answer : Request → Except Fault Json) : List (Task α) → List (Task α) → Prop :=
  Relation.ReflTransGen (Step answer)

section Steps

variable {tasks tasks' : List (Task α)}

/-- A step leaves alone what each task comes to. -/
lemma Step.map_value (h : Step answer tasks tasks') :
    tasks'.map (value answer) = tasks.map (value answer) := by
  obtain ⟨before, request, next, after⟩ := h
  rw [List.map_append, List.map_append, List.map_cons, List.map_cons, value]

/-- A step takes one request off those that remain. -/
lemma Step.sum_remaining (h : Step answer tasks tasks') :
    (tasks'.map (remaining answer)).sum + 1 = (tasks.map (remaining answer)).sum := by
  obtain ⟨before, request, next, after⟩ := h
  simp only [List.map_append, List.map_cons, List.sum_append, List.sum_cons, remaining]
  omega

lemma Step.cons (task : Task α) (h : Step answer tasks tasks') :
    Step answer (task :: tasks) (task :: tasks') := by
  obtain ⟨before, request, next, after⟩ := h
  exact .answered (task :: before) request next after

/-- There is no run without end. -/
theorem wellFounded_step :
    WellFounded fun tasks' tasks : List (Task α) => Step answer tasks tasks' :=
  Subrelation.wf (fun h => Nat.lt_of_succ_le (Step.sum_remaining h).le)
    (measure fun tasks : List (Task α) => (tasks.map (remaining answer)).sum).wf

lemma reaches_map_value (h : Reaches answer tasks tasks') :
    tasks'.map (value answer) = tasks.map (value answer) := by
  induction h with
  | refl => rfl
  | tail _ hstep ih => exact hstep.map_value.trans ih

/-- Tasks can always be brought to their ends. -/
lemma reaches_done (tasks : List (Task α)) :
    Reaches answer tasks (tasks.map fun task => done (task.value answer)) := by
  induction tasks with
  | nil => exact .refl
  | cons task tasks ih =>
      refine .trans (Relation.ReflTransGen.lift (task :: ·) (fun _ _ => Step.cons task) _ _ ih)
        ?_
      rw [List.map_cons]
      generalize tasks.map (fun task => done (task.value answer)) = finished
      -- along the first task, while the others have ended
      induction task with
      | done value => exact .refl
      | ask request next ih => exact .head (.answered [] request next finished) (ih _)

lemma mapM_result?_done (values : List α) : (values.map done).mapM result? = some values := by
  induction values with
  | nil => rfl
  | cons value values ih =>
      rw [List.map_cons, List.mapM_cons, ih]
      rfl

/-- What tasks have come to when all are done is what each comes to alone. -/
lemma map_value_of_mapM_result? {results : List α} (h : tasks.mapM result? = some results) :
    tasks.map (value answer) = results := by
  induction tasks generalizing results with
  | nil => cases h; rfl
  | cons task tasks ih =>
      cases task with
      | ask request next => cases h
      | done first =>
          obtain ⟨_, hfirst, h⟩ := Option.bind_eq_some_iff.mp (List.mapM_cons.symm.trans h)
          obtain ⟨rest, hrest, h⟩ := Option.bind_eq_some_iff.mp h
          cases hfirst
          cases h
          rw [List.map_cons, value, ih hrest]

/-- Tasks that run side by side can be brought to their ends from wherever they have come to, and
they end with what each of them comes to alone. -/
theorem run_values (h : Reaches answer tasks tasks') :
    (∃ final, Reaches answer tasks' final
        ∧ final.mapM result? = some (tasks.map (value answer)))
      ∧ ∀ results, tasks'.mapM result? = some results → results = tasks.map (value answer) := by
  refine ⟨⟨_, reaches_done tasks', ?_⟩, fun results hresults => ?_⟩
  · have hdone := mapM_result?_done (tasks'.map (value answer))
    rwa [List.map_map, reaches_map_value h] at hdone
  · rw [← reaches_map_value h, map_value_of_mapM_result? hresults]

end Steps

end Task

/-! ### Work that tasks do -/

/-- Work that can be done against every server. -/
abbrev Work (α : Type) := (σ : Type) → Executor σ → StateM σ α

/-- A task does some work: against every server, it does the same. -/
def Task.Performs (task : Task α) (work : Work α) : Prop :=
  ∀ (σ : Type) (execute : Executor σ), task.run execute = work σ execute

/-- Some task does the work. -/
def Performed (work : Work α) : Prop := ∃ task : Task α, task.Performs work

namespace Performed

lemma pure (a : α) : Performed fun _ _ => Pure.pure a := ⟨.done a, fun _ _ => rfl⟩

lemma bind {work : Work α} {next : (σ : Type) → Executor σ → α → StateM σ β}
    (hwork : Performed work) (hnext : ∀ a, Performed fun σ execute => next σ execute a) :
    Performed fun σ execute => work σ execute >>= next σ execute := by
  obtain ⟨task, htask⟩ := hwork
  choose nexts hnexts using hnext
  refine ⟨task.bind nexts, fun σ execute => ?_⟩
  rw [Task.run_bind, htask]
  exact congrArg _ (funext fun a => hnexts a σ execute)

lemma execute (request : Request) : Performed fun _ execute => (execute request).run :=
  ⟨.ask request .done, fun _ execute => bind_pure (execute request).run⟩

/-- A step of a session after which the session goes on or ends. -/
lemma session {work : (σ : Type) → Executor σ → Session σ α}
    {next : (σ : Type) → Executor σ → α → Session σ β}
    (hwork : Performed fun σ execute => (work σ execute).run)
    (hnext : ∀ a, Performed fun σ execute => (next σ execute a).run) :
    Performed fun σ execute => (work σ execute >>= next σ execute).run := by
  simp only [ExceptT.run_bind]
  refine bind hwork fun outcome => ?_
  cases outcome with
  | error fault => exact pure (Except.error fault)
  | ok a => exact hnext a

/-- A check in a session. -/
lemma check {next : (σ : Type) → Executor σ → α → Session σ β} (x : Except Fault α)
    (hnext : ∀ a, Performed fun σ execute => (next σ execute a).run) :
    Performed fun σ execute => ((liftM x : Session σ α) >>= next σ execute).run :=
  session (pure x) hnext

lemma foldlM {step : (σ : Type) → Executor σ → β → α → Session σ β}
    (hstep : ∀ b a, Performed fun σ execute => (step σ execute b a).run) (as : List α) (b : β) :
    Performed fun σ execute => (as.foldlM (step σ execute) b).run := by
  induction as generalizing b with
  | nil => exact pure (Except.ok b)
  | cons a as ih => exact session (hstep b a) ih

lemma gather {work : Work (Harvest α)} (hwork : Performed work) :
    Performed fun σ execute => (Session.gather (work σ execute)).run := by
  refine session (bind hwork fun h => pure (Except.ok h)) fun h => ?_
  cases h.complete with
  | error fault => exact pure (Except.error fault)
  | ok items => exact pure (Except.ok items)

lemma each {f : (σ : Type) → Executor σ → α → Session σ β}
    (hf : ∀ a, Performed fun σ execute => (f σ execute a).run) (as : List α) :
    Performed fun σ execute => Harvest.each (f σ execute) as := by
  induction as with
  | nil => exact pure _
  | cons a as ih =>
      refine bind (hf a) fun outcome => ?_
      cases outcome with
      | error fault => exact pure _
      | ok b => exact bind ih fun rest => pure _

lemma flatEach {f : (σ : Type) → Executor σ → α → StateM σ (Harvest β)}
    (hf : ∀ a, Performed fun σ execute => f σ execute a) (as : List α) :
    Performed fun σ execute => Harvest.flatEach (f σ execute) as := by
  induction as with
  | nil => exact pure _
  | cons a as ih =>
      refine bind (hf a) fun first => ?_
      split
      · exact pure _
      · exact bind ih fun rest => pure _

/-! #### Pages -/

/-- A walk over pages is done by a task if what is done with each page is. -/
lemma walk {plan : PagePlan} {pick : (σ : Type) → Executor σ → Page → StateM σ (Harvest α)}
    (hpick : ∀ page, Performed fun σ execute => pick σ execute page) (limit : ℕ)
    (state : PageState) :
    Performed fun σ execute => plan.walk execute (pick σ execute) limit state := by
  induction limit generalizing state with
  | zero => exact pure _
  | succ limit ih =>
      simp only [PagePlan.walk]
      split
      · exact pure _
      · refine bind (execute _) fun outcome => ?_
        cases outcome with
        | error fault => exact pure _
        | ok response =>
            dsimp only
            cases plan.page state response with
            | error fault => exact pure _
            | ok page =>
                refine bind (hpick page) fun picked => ?_
                split
                · exact pure _
                · exact bind (ih page.state) fun rest => pure _

lemma combine (plan : PagePlan) (limit : ℕ) :
    Performed fun _ execute => (plan.combine execute limit).run :=
  session (gather (walk (fun _ => pure _) limit plan.strategy.start)) fun _ => pure _

end Performed

/-! #### Nodes -/

namespace Sourcing

/-- Fetching in the same way from another server. -/
@[simps strategies pageLimit]
def withExecutor {τ : Type} (s : Sourcing σ) (execute : Executor τ) : Sourcing τ where
  definitions := s.definitions
  execute := execute
  aliases := s.aliases
  strategies := s.strategies
  pageLimit := s.pageLimit

variable (s : Sourcing σ)

lemma definition_withExecutor {τ : Type} (execute : Executor τ) (type : String) :
    (s.withExecutor execute).definition type = s.definition type := rfl

lemma performed_addField (d : NodeDefinition) (bindings node : Keyed Json) (operation : String) :
    Performed fun _ execute =>
      ((s.withExecutor execute).addField d bindings node operation).run := by
  simp only [addField, withExecutor_strategies, withExecutor_pageLimit]
  refine .check _ fun plan => .session (.combine plan s.pageLimit) fun response? => ?_
  cases response? with
  | none => exact .pure _
  | some response =>
      refine .check _ fun data => ?_
      split
      · exact .pure _
      · exact .check _ fun path => .pure _

lemma performed_addFields (d : NodeDefinition) (node : Json) :
    Performed fun _ execute => ((s.withExecutor execute).addFields d node).run := by
  simp only [addFields]
  split
  · exact .pure _
  · refine .check _ fun id => .check _ fun fields => ?_
    exact .session (.foldlM (fun node operation => s.performed_addField d _ node operation) _ _)
      fun fields => .pure _

lemma performed_nodeList (type operation : String) :
    Performed fun _ execute => (s.withExecutor execute).nodeList type operation := by
  simp only [nodeList, definition_withExecutor, withExecutor_strategies, withExecutor_pageLimit]
  split
  · exact .pure _
  · refine .walk (fun page => ?_) _ _
    simp only [pageNodes]
    split
    · exact .pure _
    · exact .each (s.performed_addFields _) _

/-- The nodes of a type are fetched by a task. -/
theorem performed_allNodes (type : String) :
    Performed fun _ execute => ((s.withExecutor execute).allNodes type).run := by
  simp only [allNodes, definition_withExecutor]
  exact .check _ fun d => .gather (.flatEach (s.performed_nodeList type) _)

end Sourcing

end RemoteNodes
