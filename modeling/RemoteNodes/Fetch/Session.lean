import RemoteNodes.Json.Shape
/-!
Sessions: work against a server, whose side is a state `σ`, that may fail.

* `Request`: an operation of a query with its variables; `Executor`: what answers requests.
* `Harvest`: what was gathered before work ended, and the fault that ended it early.
-/

namespace RemoteNodes

/-- An operation to be executed. -/
structure Request where
  query : String
  operation : String
  bindings : Keyed Json
  deriving Repr

/-- Work against a server whose side is a state. -/
abbrev Session (σ : Type) := ExceptT Fault (StateM σ)

/-- Answers requests with the payload of the response. -/
abbrev Executor (σ : Type) := Request → Session σ Json

/-- The items gathered before work ended, and the fault that ended it early, if one did. -/
structure Harvest (α : Type) where
  items : List α
  fault? : Option Fault := none

namespace Harvest

variable {α β σ : Type}

/-- All items, if no fault ended the work early. -/
def complete (h : Harvest α) : Except Fault (List α) :=
  match h.fault? with
  | some fault => .error fault
  | none => .ok h.items

/-- Gathers what `f` gives for each item, up to the first fault. -/
def each (f : α → Session σ β) : List α → StateM σ (Harvest β)
  | [] => pure ⟨[], none⟩
  | x :: xs => do
    match ← (f x).run with
    | .error fault => return ⟨[], some fault⟩
    | .ok y =>
      let rest ← each f xs
      return ⟨y :: rest.items, rest.fault?⟩

/-- Gathers all that `f` gives for each item, up to the first fault. -/
def flatEach (f : α → StateM σ (Harvest β)) : List α → StateM σ (Harvest β)
  | [] => pure ⟨[], none⟩
  | x :: xs => do
    let first ← f x
    if first.fault?.isSome then return first
    let rest ← flatEach f xs
    return ⟨first.items ++ rest.items, rest.fault?⟩

end Harvest

/-- All that was gathered, as a step of a session. -/
def Session.gather {σ α : Type} (work : StateM σ (Harvest α)) : Session σ (List α) := do
  let h ← (work : Session σ (Harvest α))
  match h.complete with
  | .ok items => return items
  | .error fault => throw fault

/-- The data of a response. Without data the errors of the server are the fault, told in the words
of the first of them, or in `words` if it has none. -/
def responseData (response : Json) (words : String) : Except Fault Json := do
  match ← response.key "data" with
  | .null =>
    let errors ← response.key "errors"
    if !errors.isTruthy then throw (.query (.str words) [])
    match errors with
    | .arr (first :: rest) =>
      let message ← first.key "message"
      throw (.query (message.or (.str words)) (first :: rest))
    | _ => throw .malformed
  | data => return data

end RemoteNodes
