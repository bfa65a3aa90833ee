import RemoteNodes.Schema.Introspection.Answer
import RemoteNodes.Schema.Introspection.Query
/-!
Schemas that servers tell about themselves.

* `introspect`: the schema of a server.
-/

namespace RemoteNodes

/-- The schema of a server. -/
def introspect {σ : Type} (execute : Executor σ) : Session σ Schema := do
  let response ← execute Introspection.request
  let data ← Introspection.dataOf response
  Introspection.read data

end RemoteNodes
