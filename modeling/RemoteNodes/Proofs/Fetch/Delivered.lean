import Mathlib.Tactic
import RemoteNodes.Proofs.Fetch.Combine
import RemoteNodes.Proofs.Fetch.Listing
import RemoteNodes.Proofs.Keyed
/-!
Sourcing all nodes: the types are fetched side by side, and when all of them have ended their nodes
are handed on.

* `Sourcing.deliver`: what becomes of what fetching the types gave; `source_eq`: this is all that
  sourcing does after it.
* `Sourcing.Starts`: tasks that fetch the nodes of each type; `Sourcing.handed`: what has been
  handed on when tasks have come to a state.
* `Sourcing.belonging`: the nodes that do not say that they are of another type.
* `Sourcing.source_delivers`: **each node that belongs to its type is handed on once and in order,
  or none is**.
-/

namespace RemoteNodes

namespace Sourcing

variable {σ : Type} (s : Sourcing σ)

/-! ### After fetching -/

/-- What becomes of what fetching the types gave. -/
def deliver (outcomes : List (String × NodeDefinition × Except Fault (List Json))) :
    Harvest NodeRecord × List (String × List Json) :=
  let fetched : Except Fault (List (String × NodeDefinition × List Json)) :=
    outcomes.mapM fun (type, d, outcome) => do return (type, d, ← outcome)
  match fetched with
  | .error fault => (⟨[], some fault⟩, [])
  | .ok types =>
    (s.records (types.flatMap fun (type, d, nodes) => nodes.map fun n => (type, d, n)),
      types.map fun (type, _, nodes) => (type, nodes))

lemma source_eq : s.source = s.deliver <$> s.fetchTypes s.definitions := by
  rw [source, map_eq_pure_bind]
  refine congrArg _ (funext fun outcomes => ?_)
  simp only [deliver]
  cases outcomes.mapM fun (type, d, outcome) => do return (type, d, ← outcome) with
  | error fault => rfl
  | ok types => rfl

/-- The key that says of what type a node is. -/
def typeKey : String := (Keyed.get? s.aliases "__typename").getD "__typename"

/-- Whether a node does not say that it is of another type. -/
def belongs (type : String) (node : Json) : Bool :=
  (node.field? s.typeKey).all fun name => name.str? == some type

/-- The record of a node that belongs to its type; the others have none. -/
lemma record_obj {type : String} {d : NodeDefinition} {fields : Keyed Json} :
    s.record type d (.obj fields)
      = if s.belongs type (.obj fields)
        then (fun id => some ⟨type, id, .obj fields⟩) <$> d.nodeId (.obj fields)
        else .ok none := by
  have hbind {f : Keyed Json → Except Fault (Option NodeRecord)} :
      ((Json.obj fields).fields >>= f) = f fields := rfl
  have hkey : (Json.obj fields).field? s.typeKey = Keyed.get? fields s.typeKey := rfl
  rw [record, hbind, belongs, hkey, typeKey]
  dsimp only
  cases Keyed.get? fields ((Keyed.get? s.aliases "__typename").getD "__typename") with
  | none => rfl
  | some name =>
      cases name with
      | str other =>
          by_cases h : other = type
          · simp [h, Json.str?]
          · simp [h, Json.str?]
            rfl
      | null | bool _ | int _ | real _ | arr _ | obj _ => rfl

/-- A record is that of a node. -/
def RecordOf (fetched : String × NodeDefinition × Json) (record : NodeRecord) : Prop :=
  record.type = fetched.1 ∧ record.node = fetched.2.2
    ∧ fetched.2.1.nodeId fetched.2.2 = .ok record.id

lemma map_of_forall₂_recordOf {nodes : List (String × NodeDefinition × Json)}
    {records : List NodeRecord} (h : List.Forall₂ RecordOf nodes records) :
    records.map (fun record => (record.type, record.node)) = nodes.map fun n => (n.1, n.2.2) := by
  rw [← List.forall₂_eq_eq_eq, List.forall₂_map_left_iff, List.forall₂_map_right_iff]
  exact h.flip.imp fun record n hrecord => Prod.ext hrecord.1 hrecord.2.1

/-- The records of objects whose ids can be computed are those of the nodes that belong to their
types, in order. -/
lemma forall₂_records {nodes : List (String × NodeDefinition × Json)}
    (hobjects : ∀ n ∈ nodes, ∃ fields, n.2.2 = .obj fields)
    (hids : ∀ n ∈ nodes, s.belongs n.1 n.2.2 = true → ∃ id, n.2.1.nodeId n.2.2 = .ok id) :
    List.Forall₂ RecordOf (nodes.filter fun n => s.belongs n.1 n.2.2) (s.records nodes).items := by
  induction nodes with
  | nil => exact .nil
  | cons n nodes ih =>
      obtain ⟨type, d, node⟩ := n
      obtain ⟨hobject, hobjects⟩ := List.forall_mem_cons.mp hobjects
      obtain ⟨hid, hids⟩ := List.forall_mem_cons.mp hids
      have hrest := ih hobjects hids
      obtain ⟨fields, rfl⟩ : ∃ fields, node = .obj fields := hobject
      rw [records, record_obj]
      cases hbelongs : s.belongs type (.obj fields) with
      | false =>
          rw [List.filter_cons_of_neg (by simp [hbelongs])]
          exact hrest
      | true =>
          obtain ⟨id, hid⟩ := hid hbelongs
          rw [List.filter_cons_of_pos (by exact hbelongs), if_pos rfl, hid]
          exact .cons ⟨rfl, rfl, hid⟩ hrest

/-! ### Fetching side by side -/

/-- Tasks that fetch all nodes of each type. -/
def Starts (tasks : List (Task (Except Fault (List Json)))) : Prop :=
  List.Forall₂ (fun p task => task.Performs fun _ execute =>
    ((s.withExecutor execute).allNodes p.1).run) s.definitions tasks

/-- The records that have been handed on when tasks have come to a state: none before all types have
been fetched. -/
def handed (tasks : List (Task (Except Fault (List Json)))) : List NodeRecord :=
  match tasks.mapM Task.result? with
  | none => []
  | some outcomes =>
    (s.deliver (s.definitions.zipWith (fun p outcome => (p.1, p.2, outcome)) outcomes)).1.items

/-- What fetching all nodes of a type comes to, if each request has its answer. -/
def fetched (answer : Request → Except Fault Json) (type : String) : Except Fault (List Json) :=
  (((s.withExecutor (.answering answer)).allNodes type).outcome ()).1

lemma exists_starts : ∃ tasks, s.Starts tasks := by
  choose task htask using s.performed_allNodes
  refine ⟨s.definitions.map fun p => task p.1, ?_⟩
  rw [Starts, List.forall₂_map_right_iff, List.forall₂_same]
  exact fun p _ => htask p.1

section Answers

variable {s} {answer : Request → Except Fault Json}

lemma value_eq_fetched {type : String} {task : Task (Except Fault (List Json))}
    (h : task.Performs fun _ execute => ((s.withExecutor execute).allNodes type).run) :
    task.value answer = s.fetched answer type := by
  have hrun : task.run (.answering answer)
      = ((s.withExecutor (.answering answer)).allNodes type).run := h Unit _
  rw [fetched, Session.outcome, ← hrun, Task.value_run fun _ _ => rfl]

lemma outcome_eq_fetched
    (hanswer : ∀ request server, ((s.execute request).outcome server).1 = answer request)
    (type : String) (server : σ) :
    ((s.allNodes type).outcome server).1 = s.fetched answer type := by
  obtain ⟨task, htask⟩ := s.performed_allNodes type
  rw [← value_eq_fetched htask, ← Task.value_run hanswer task server, htask]
  rfl

/-- What each type comes to does not depend on what has been fetched before it. -/
lemma run_fetchTypes
    (hanswer : ∀ request server, ((s.execute request).outcome server).1 = answer request)
    (ds : List (String × NodeDefinition)) (server : σ) :
    ((s.fetchTypes ds).run server).1 = ds.map fun p => (p.1, p.2, s.fetched answer p.1) := by
  induction ds generalizing server with
  | nil => rfl
  | cons p ds ih =>
      rcases hp : (s.allNodes p.1).run.run server with ⟨outcome, server'⟩
      have houtcome : outcome = s.fetched answer p.1 := by
        rw [← outcome_eq_fetched hanswer p.1 server, Session.outcome, hp]
      rw [fetchTypes, run_bind_of_eq hp, List.map_cons, ← ih server', houtcome]
      rfl

lemma run_source
    (hanswer : ∀ request server, ((s.execute request).outcome server).1 = answer request)
    (server : σ) : (s.source.run server).1
      = s.deliver (s.definitions.map fun p => (p.1, p.2, s.fetched answer p.1)) := by
  rw [source_eq, StateT.run_map, ← run_fetchTypes hanswer s.definitions server]
  rfl

/-- Tasks that have ended in any order have handed on what sourcing gives. -/
lemma handed_of_reaches {tasks reached : List (Task (Except Fault (List Json)))}
    {outcomes : List (Except Fault (List Json))} (hstarts : s.Starts tasks)
    (hreaches : Task.Reaches answer tasks reached)
    (hended : reached.mapM Task.result? = some outcomes) :
    s.handed reached
      = (s.deliver (s.definitions.map fun p => (p.1, p.2, s.fetched answer p.1))).1.items := by
  have hvalues : tasks.map (Task.value answer)
      = s.definitions.map fun p => s.fetched answer p.1 := by
    rw [← List.forall₂_eq_eq_eq, List.forall₂_map_left_iff, List.forall₂_map_right_iff]
    exact hstarts.flip.imp fun task p h => value_eq_fetched h
  rw [handed, hended, (Task.run_values hreaches).2 outcomes hended, hvalues]
  simp only [List.zipWith_map_right, List.zipWith_self]

/-! ### What is handed on -/

/-- The fetched nodes with their types, in order. -/
def nodes (s : Sourcing σ) (fetched : List (List Json)) : List (String × NodeDefinition × Json) :=
  (s.definitions.zip fetched).flatMap fun p => p.2.map fun node => (p.1.1, p.1.2, node)

/-- The fetched nodes that belong to the types that they were fetched for. -/
def belonging (s : Sourcing σ) (fetched : List (List Json)) :
    List (String × NodeDefinition × Json) :=
  (s.nodes fetched).filter fun n => s.belongs n.1 n.2.2

/-- If all types have been fetched, the records are those of their nodes. -/
lemma deliver_ok {fetched : List (List Json)}
    (h : List.Forall₂ (fun p nodes => s.fetched answer p.1 = .ok nodes) s.definitions fetched) :
    (s.deliver (s.definitions.map fun p => (p.1, p.2, s.fetched answer p.1))).1
      = s.records (s.nodes fetched) := by
  have hmapM : (s.definitions.map fun p => (p.1, p.2, s.fetched answer p.1)).mapM
      (fun (type, d, outcome) => do return (type, d, ← outcome))
      = Except.ok ((s.definitions.zip fetched).map fun p => (p.1.1, p.1.2, p.2)) := by
    rw [mapM_eq_ok, List.forall₂_map_left_iff, List.forall₂_map_right_iff]
    generalize s.definitions = definitions at h
    induction h with
    | nil => exact .nil
    | cons hp _ ih => exact .cons (bind_eq_ok.mpr ⟨_, hp, rfl⟩) ih
  rw [deliver, hmapM]
  simp only [List.flatMap_map]
  rfl

/-- If a type cannot be fetched there are no records. -/
lemma deliver_error (h : ∃ p ∈ s.definitions, ∃ fault, s.fetched answer p.1 = .error fault) :
    (s.deliver (s.definitions.map fun p => (p.1, p.2, s.fetched answer p.1))).1.items = [] := by
  obtain ⟨p, hp, fault, hfault⟩ := h
  simp only [deliver]
  split
  · rfl
  · rename_i types htypes
    exfalso
    obtain ⟨y, -, hy⟩ := (mem_of_mapM htypes).1 _ (List.mem_map_of_mem hp)
    obtain ⟨nodes, hnodes, -⟩ := bind_eq_ok.mp hy
    cases hnodes.symm.trans hfault

/-- However the requests of the types are answered side by side, all types can be fetched to their
end, and then what is handed on is what sourcing gives. If all types could be fetched, their nodes
are those that their operations list, and if these are objects with ids then each one that belongs
to its type is handed on once, by type, operation, page and place. If a type cannot be fetched,
nothing is ever handed on. -/
theorem source_delivers (s : Sourcing σ) (server : σ) (answer : Request → Except Fault Json)
    (hanswer : ∀ request server, ((s.execute request).outcome server).1 = answer request)
    (hkeys : (Keyed.keys s.definitions).Nodup) :
    (∃ tasks, s.Starts tasks)
      ∧ ∀ tasks reached, s.Starts tasks → Task.Reaches answer tasks reached →
        (∃ final, Task.Reaches answer reached final ∧ Task.Ended final)
        ∧ (Task.Ended reached → s.handed reached = (s.source.run server).1.1.items)
        ∧ (∀ fetched, List.Forall₂ (fun p nodes => ((s.allNodes p.1).outcome server).1 = .ok nodes)
            s.definitions fetched →
          List.Forall₂ (fun p nodes => ∃ chunks, List.Forall₂
              ((s.withExecutor (.answering answer)).Lists p.2) p.2.document.listOperations chunks
              ∧ chunks.flatten = nodes) s.definitions fetched
          ∧ ((∀ n ∈ s.nodes fetched, ∃ fields, n.2.2 = .obj fields) →
            (∀ n ∈ s.belonging fetched, ∃ id, n.2.1.nodeId n.2.2 = .ok id) →
            Task.Ended reached →
            List.Forall₂ RecordOf (s.belonging fetched) (s.handed reached)))
        ∧ ((∃ p ∈ s.definitions, ∃ fault, ((s.allNodes p.1).outcome server).1 = .error fault) →
          s.handed reached = []) := by
  refine ⟨s.exists_starts, fun tasks reached hstarts hreaches => ?_⟩
  have hhanded {outcomes} (hended : reached.mapM Task.result? = some outcomes) :=
    handed_of_reaches hstarts hreaches hended
  simp only [outcome_eq_fetched hanswer]
  refine ⟨?_, fun hended => ?_, fun fetched hfetched => ⟨?_, fun hobjects hids hended => ?_⟩,
    fun hfault => ?_⟩
  · obtain ⟨⟨final, hfinal, hvalues⟩, -⟩ := Task.run_values hreaches
    exact ⟨final, hfinal, Option.isSome_of_eq_some hvalues⟩
  · obtain ⟨outcomes, hended⟩ := Option.isSome_iff_exists.mp hended
    rw [hhanded hended, run_source hanswer]
  · have hget : ∀ p ∈ s.definitions, Keyed.get? s.definitions p.1 = some p.2 := fun p hp =>
      (Keyed.mem_iff_get? hkeys).mp hp
    refine ((List.forall₂_and_left _ _).mpr ⟨hget, hfetched⟩).imp fun p nodes ⟨hget, hnodes⟩ => ?_
    refine exists_lists ?_ (Prod.ext hnodes rfl)
    rw [definition_withExecutor, definition, hget]
  · obtain ⟨outcomes, hended⟩ := Option.isSome_iff_exists.mp hended
    rw [hhanded hended, deliver_ok hfetched]
    exact s.forall₂_records hobjects fun n hn hbelongs =>
      hids n (List.mem_filter.mpr ⟨hn, hbelongs⟩)
  · cases hended : reached.mapM Task.result? with
    | none => rw [handed, hended]
    | some outcomes => rw [hhanded hended, deliver_error hfault]

end Answers

/-! ### Two types side by side -/

/-- A type whose only operation lists its nodes by limit and offset. -/
def listedDefinition (type operation field idFragment : String) : NodeDefinition where
  type := type
  document := [
    .operation
      { kind := .query, name? := some operation,
        variableDefinitions := [{ name := "limit", type := .named "Int" },
          { name := "offset", type := .named "Int" }],
        directives := [],
        selections := [.field none field
          [⟨"limit", .variable "limit"⟩, ⟨"offset", .variable "offset"⟩] []
          (some [.field (some "remoteTypeName") "__typename" [] [] none,
            .spread idFragment []])] },
    .fragment
      { name := idFragment, condition := type,
        selections := [.field (some "remoteId") "id" [] [] none] }]
  idFragmentName := idFragment

/-- A node that says of what type it is. -/
def typedNode (type id : String) : Json :=
  .obj [("remoteTypeName", .str type), ("remoteId", .str id)]

/-- The answers of a server that lists a node of the second type among those of the first. -/
def pairAnswer (request : Request) : Except Fault Json :=
  match request.operation with
  | "LIST_Foo" =>
    .ok (.obj [("data", .obj [("allFoo", .arr [typedNode "Bar" "1", typedNode "Foo" "2"])])])
  | "LIST_Bar" => .ok (.obj [("data", .obj [("allBar", .arr [typedNode "Bar" "1"])])])
  | _ => .error .malformed

/-- Fetching two types from such a server. -/
def pairSourcing : Sourcing Unit where
  definitions := [("Foo", listedDefinition "Foo" "LIST_Foo" "allFoo" "FooId"),
    ("Bar", listedDefinition "Bar" "LIST_Bar" "allBar" "BarId")]
  execute := .answering pairAnswer
  pageLimit := 1

/-- All nodes of a type with one operation on one page. -/
lemma outcome_allNodes_pair {type operation field idFragment : String} {response : Json}
    {page : Page} {nodes : List Json}
    (hdefinition : pairSourcing.definition type
      = .ok (listedDefinition type operation field idFragment))
    (hoperations : (listedDefinition type operation field idFragment).document.listOperations
      = [operation])
    (hfields : (listedDefinition type operation field idFragment).document.fieldOperations = [])
    {plan : PagePlan}
    (hplan : PagePlan.make (listedDefinition type operation field idFragment).document operation []
      pairSourcing.strategies = .ok plan)
    (hstart : plan.strategy.start.hasNext = true)
    (hresponse : pairAnswer (plan.request plan.strategy.start) = .ok response)
    (hpage : plan.page plan.strategy.start response = .ok page) (hlast : page.state.hasNext = false)
    (hnodes : plan.strategy.items page.value = .ok nodes) :
    ((pairSourcing.allNodes type).outcome ()).1 = .ok nodes := by
  have hwalk : plan.Walked pairSourcing.execute plan.strategy.start () [page] () := by
    refine .next hstart ?_ hpage (.done hlast)
    exact congrArg (·, ()) hresponse
  have hlist : (pairSourcing.nodeList type operation).run () = (⟨[nodes].flatten, none⟩, ()) :=
    run_nodeList hdefinition hfields hplan hwalk le_rfl (mapM_eq_ok.mpr (.cons hnodes .nil))
  have hall : (Harvest.flatEach (pairSourcing.nodeList type) [operation]).run ()
      = (⟨nodes, none⟩, ()) := by
    rw [Harvest.flatEach, run_bind_of_eq hlist, if_neg (by simp), List.flatten_singleton]
    exact congrArg (fun items => ((⟨items, none⟩ : Harvest Json), ())) (List.append_nil nodes)
  rw [outcome_allNodes hdefinition, hoperations, Session.outcome_gather hall]

/-- The nodes that are fetched of each type. -/
def pairFetched : List (List Json) :=
  [[typedNode "Bar" "1", typedNode "Foo" "2"], [typedNode "Bar" "1"]]

lemma forall₂_pairFetched :
    List.Forall₂ (fun p nodes => ((pairSourcing.allNodes p.1).outcome ()).1 = .ok nodes)
      pairSourcing.definitions pairFetched := by
  refine .cons ?_ (.cons ?_ .nil)
  · exact outcome_allNodes_pair rfl (by decide +kernel) (by decide +kernel) (by cbv) rfl rfl rfl
      rfl rfl
  · exact outcome_allNodes_pair rfl (by decide +kernel) (by decide +kernel) (by cbv) rfl rfl rfl
      rfl rfl

/-- Each type hands on its own node once, whichever of the two lists comes first. -/
theorem source_delivers_pair : ∃ tasks, pairSourcing.Starts tasks
    ∧ ∀ reached, Task.Reaches pairAnswer tasks reached →
      ∃ final, Task.Reaches pairAnswer reached final ∧ Task.Ended final
        ∧ (pairSourcing.handed final).map (fun record => (record.type, record.node))
          = [("Foo", typedNode "Foo" "2"), ("Bar", typedNode "Bar" "1")] := by
  obtain ⟨⟨tasks, hstarts⟩, hruns⟩ :=
    source_delivers pairSourcing () pairAnswer (fun _ _ => rfl) (by decide)
  refine ⟨tasks, hstarts, fun reached hreaches => ?_⟩
  obtain ⟨⟨final, hfinal, hended⟩, -⟩ := hruns tasks reached hstarts hreaches
  refine ⟨final, hfinal, hended, ?_⟩
  obtain ⟨-, -, hfetched, -⟩ := hruns tasks final hstarts (hreaches.trans hfinal)
  have hbelonging : pairSourcing.belonging pairFetched
      = [("Foo", listedDefinition "Foo" "LIST_Foo" "allFoo" "FooId", typedNode "Foo" "2"),
        ("Bar", listedDefinition "Bar" "LIST_Bar" "allBar" "BarId", typedNode "Bar" "1")] := rfl
  have hobjects : ∀ n ∈ pairSourcing.nodes pairFetched, ∃ fields, n.2.2 = .obj fields := by
    simp [nodes, pairSourcing, pairFetched, typedNode]
  have hids : ∀ n ∈ pairSourcing.belonging pairFetched, ∃ id, n.2.1.nodeId n.2.2 = .ok id := by
    rw [hbelonging]
    simp only [List.forall_mem_cons, List.not_mem_nil, false_implies, implies_true, and_true]
    exact ⟨⟨_, rfl⟩, _, rfl⟩
  rw [map_of_forall₂_recordOf
    ((hfetched pairFetched forall₂_pairFetched).2 hobjects hids hended), hbelonging]
  rfl

end Sourcing

end RemoteNodes
