import RemoteNodes.Network.Exchange
/-!
A network with prepared replies: each operation has a queue of them, whichever server is asked. It
remembers which servers were chosen and what they were asked. An operation whose queue is empty
gets the reply that it is gone.

* `PreparedNetwork.way`: the way to the servers of such a network.
-/

namespace RemoteNodes

/-- Queues of replies by operation, and what happened so far, the latest first. -/
structure PreparedNetwork where
  queues : Keyed (List HttpReply)
  chosen : List Endpoint := []
  asked : List (String × Json) := []
  deriving Repr

namespace PreparedNetwork

/-- The number of all replies left. -/
def size (network : PreparedNetwork) : Nat := (network.queues.flatMap (·.2)).length

/-- The reply when none is left for an operation. -/
def gone : HttpReply := ⟨404, "gone"⟩

/-- Replies with the next reply for the operation. -/
def reply (request : HttpRequest) : Session PreparedNetwork HttpReply := do
  let network ← getThe PreparedNetwork
  let operation := ((request.body.field? "operationName").bind Json.str?).getD ""
  let bindings := (request.body.field? "variables").getD .null
  let network := { network with asked := (operation, bindings) :: network.asked }
  match (Keyed.get? network.queues operation).getD [] with
  | [] =>
    set network
    return gone
  | next :: rest =>
    set { network with queues := Keyed.put network.queues operation rest }
    return next

/-- The way to the servers of a prepared network. Warnings are not kept. -/
def way : Network PreparedNetwork where
  choose endpoint := modify fun network => { network with chosen := endpoint :: network.chosen }
  send := reply
  warn _ := pure ()

end PreparedNetwork

end RemoteNodes
