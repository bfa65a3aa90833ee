import RemoteNodes.Fault
import RemoteNodes.Keyed
import RemoteNodes.Text.Blank
/-!
Headers of requests. A header is written as its name, a colon and its value.

* `Header.read`: the name and the value of a written header.
* `sentHeaders`: the headers that go out with a request.
-/

namespace RemoteNodes

namespace Header

/-- The name and the value of a written header, without blanks around them. -/
def read (text : String) : Except Fault (String × String) :=
  let (name, rest) := text.toList.span (· != ':')
  let name := Text.stripBlanks name
  match rest with
  | ':' :: value =>
    if name.isEmpty then .error (.badHeader text)
    else .ok (String.ofList name, String.ofList (Text.stripBlanks value))
  | _ => .error (.badHeader text)

/-- All written headers; the last one of a name counts. -/
def readAll (texts : List String) : Except Fault (Keyed String) := do
  return Keyed.ofPairs (← texts.mapM read)

end Header

/-- The headers of a request, names in small letters. Bodies are JSON unless the configured
headers say otherwise; values of names that differ in case only are joined. Credentials of the
address go before configured ones. -/
def sentHeaders (configured : Keyed String) (credentials? : Option String) : Keyed String :=
  let headers := (Keyed.overlay [("Content-Type", "application/json")] configured).foldl
    (fun sent (name, value) =>
      Keyed.put sent (name.map Char.toLower)
        (match Keyed.get? sent (name.map Char.toLower) with
          | some before => before ++ ", " ++ value
          | none => value))
    []
  match credentials? with
  | some credentials => Keyed.put headers "authorization" credentials
  | none => headers

end RemoteNodes
