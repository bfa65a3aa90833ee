import RemoteNodes.Fetch.Session
import RemoteNodes.Json.Encoding
import RemoteNodes.Network.Header
import RemoteNodes.Network.Url
/-!
Requests as they go over the network, and what the replies to them mean.

* `HttpRequest.make`: the request that asks a server to execute an operation.
* `HttpReply.read`: the payload of a reply, with warnings about a failed request and about partial
  data.
* `HttpRequest.payload`: the payload of the reply to a request.
* `Network.executor`: the executor that asks a server.
-/

namespace RemoteNodes

/-- A request to a server. -/
structure HttpRequest where
  method : String
  url : Url
  headers : Keyed String
  body : Json
  deriving Repr

/-- What a server replies. -/
structure HttpReply where
  status : Int
  body : String
  deriving Repr

/-- A server with the headers for it and the limit of requests at a time. -/
structure Endpoint where
  url : String
  headers : Keyed String
  concurrency : Int
  deriving Repr

/-- The request that asks a server to execute an operation. -/
def HttpRequest.make (url : String) (headers : Keyed String) (request : Request) :
    Except Fault HttpRequest :=
  match Url.read? url with
  | none => .error .unreadableAddress
  | some url => .ok {
    method := "POST"
    url := url.sent
    headers := sentHeaders headers url.sent.credentials?
    body := .obj [("query", .str request.query), ("operationName", .str request.operation),
      ("variables", .obj request.bindings)] }

namespace HttpReply

/-- A status from 400 to 599. -/
def isFailure (reply : HttpReply) : Bool := 400 ≤ reply.status && reply.status < 600

/-- A status from 200 to 299. -/
def isSuccess (reply : HttpReply) : Bool := 200 ≤ reply.status && reply.status < 300

/-- The words of an error of a server: its message, or all of it if it has none. -/
def errorWords (error : Json) : Except Fault String := do
  match Keyed.get? (← error.fields) "message" with
  | none => return error.display
  | some (.str message) => return message
  | some _ => throw .malformed

/-- The warning about errors that come along with data. -/
def partialWarnings (operation bindings : String) (payload : Json) :
    Except Fault (List Warning) := do
  let data ← payload.key "data"
  let errors ← payload.key "errors"
  if data.isNull || !errors.isTruthy then return []
  return [.partialData operation (← (← errors.elements).mapM errorWords) bindings]

/-- The payload of a reply to an operation. `bindings` is the text of its variables for warnings. -/
def read (reply : HttpReply) (operation bindings : String) : Report Json := do
  Report.warn
    (if reply.isFailure then [.failedRequest operation reply.status bindings] else [])
  match Json.ofBytes? reply.body.toUTF8 with
  | none =>
    Report.of (.error (if reply.isSuccess then .unreadableJson else .httpStatus reply.status))
  | some payload =>
    Report.warn (← Report.of (partialWarnings operation bindings payload))
    return payload

end HttpReply

/-- The payload of the reply to a request. What replies without being a named server is not
listened to. -/
def HttpRequest.payload (request : HttpRequest) (reply : HttpReply)
    (operation bindings : String) : Report Json :=
  if request.url.isAbsolute then reply.read operation bindings
  else Report.of (.error (.noServer request.url.text))

/-- The way to servers: what happens when one is chosen, how requests get there, and who is told of
warnings. -/
structure Network (σ : Type) where
  choose : Endpoint → StateM σ Unit
  send : HttpRequest → Session σ HttpReply
  warn : List Warning → StateM σ Unit

namespace Network

variable {σ α : Type}

/-- A report as a step of a session: its warnings are passed on. -/
def report (network : Network σ) (r : Report α) : Session σ α := do
  network.warn r.warnings
  match r.outcome with
  | .ok value => return value
  | .error fault => throw fault

/-- Answers requests by asking a server. -/
def executor (network : Network σ) (endpoint : Endpoint) : Executor σ := fun request => do
  let sent ← (HttpRequest.make endpoint.url endpoint.headers request : Except Fault HttpRequest)
  let reply ← network.send sent
  network.report (sent.payload reply request.operation (Json.obj request.bindings).display)

end Network

end RemoteNodes
