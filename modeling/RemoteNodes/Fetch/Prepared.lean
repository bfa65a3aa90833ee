import RemoteNodes.Fetch.Session
/-!
A server with prepared responses: each operation has a queue of them. It remembers what it was
asked, and for an operation whose queue is empty it answers with an error.

* `PreparedServer.answer`: the executor of such a server.
-/

namespace RemoteNodes

/-- Queues of responses by operation, and the requests so far, the latest first. -/
structure PreparedServer where
  queues : Keyed (List Json)
  asked : List Request := []
  deriving Repr

namespace PreparedServer

/-- The number of all responses left. -/
def size (server : PreparedServer) : Nat := (server.queues.flatMap (·.2)).length

/-- The answer when no response is left for an operation. -/
def noneLeft (operation : String) : Json :=
  .obj [("errors", .arr [.obj [("message", .str ("No response left for " ++ operation))]])]

/-- Answers with the next response for the operation. -/
def answer : Executor PreparedServer := fun request => do
  let server ← getThe PreparedServer
  let server := { server with asked := request :: server.asked }
  match (Keyed.get? server.queues request.operation).getD [] with
  | [] =>
    set server
    return noneLeft request.operation
  | response :: rest =>
    set { server with queues := Keyed.put server.queues request.operation rest }
    return response

/-- The requests so far, in order. -/
def requests (server : PreparedServer) : List Request := server.asked.reverse

/-- The server with an empty memory. -/
def forget (server : PreparedServer) : PreparedServer := { server with asked := [] }

end PreparedServer

end RemoteNodes
