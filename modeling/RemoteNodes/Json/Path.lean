import RemoteNodes.Json.Value
/-!
Values at paths. A path is a list of keys; wherever it meets a list it goes on in the first item.

* `Json.atPath`: the value that a path leads to, null if it leads nowhere.
* `Json.setAt`: the value with the last key of a path set; nothing changes if the path does not
  lead to an object.
-/

namespace RemoteNodes.Json

mutual
/-- A value without the lists around it: the first item of the first item and so on. An empty list
has null for its first item. -/
def head : Json → Json
  | arr items => headIn items
  | value => value
/-- The first item, opened. -/
def headIn : List Json → Json
  | [] => null
  | x :: _ => head x
end

/-- The value that a path leads to. -/
def atPath : List String → Json → Json
  | [], value => value
  | key :: keys, value => atPath keys (((head value).field? key).getD null)

mutual
/-- Sets the last key of a path in the object that the other keys lead to. -/
def setAt (value : Json) (path : List String) (new : Json) : Json :=
  match value with
  | arr items => arr (setIn items path new)
  | obj fields =>
    match path with
    | [] => obj fields
    | [key] => obj (Keyed.put fields key new)
    | key :: keys => obj (setUnder fields key keys new)
  | value => value
/-- Sets the last key of a path in the first item. -/
def setIn (items : List Json) (path : List String) (new : Json) : List Json :=
  match items with
  | [] => []
  | x :: xs => setAt x path new :: xs
/-- Sets the last key of a path in the value of a key. -/
def setUnder (fields : List (String × Json)) (key : String) (keys : List String) (new : Json) :
    List (String × Json) :=
  match fields with
  | [] => []
  | (k, x) :: rest =>
    if k = key then (k, setAt x keys new) :: rest else (k, x) :: setUnder rest key keys new
end

@[simp] theorem atPath_nil (value : Json) : atPath [] value = value := rfl

@[simp] theorem atPath_null (path : List String) : atPath path null = null := by
  induction path with
  | nil => rfl
  | cons key keys ih => simpa [atPath, head, field?] using ih

theorem atPath_append (first second : List String) (value : Json) :
    atPath (first ++ second) value = atPath second (atPath first value) := by
  induction first generalizing value with
  | nil => rfl
  | cons key keys ih => simp [atPath, ih]

theorem atPath_key_setAt (key : String) (new : Json) (fields : List (String × Json)) :
    (setAt (obj fields) [key] new).atPath [key] = new := by
  simp [atPath, setAt, head, field?]

end RemoteNodes.Json
