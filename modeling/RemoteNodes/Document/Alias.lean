import RemoteNodes.Keyed
import RemoteNodes.Selection.Rewrite
/-!
Aliases for reserved field names. A field of a node type with a reserved name is asked for under
an alias, and so is every plain `__typename` on any type. An alias that the author of a query
wrote stays.

* `defaultAliases`: the reserved names and their aliases.
* `aliasRewriting`: what becomes of a field.
-/

namespace RemoteNodes

/-- Aliases by field names. -/
abbrev Aliases := Keyed String

/-- The reserved field names and their aliases. -/
def defaultAliases : Aliases := [
  ("__typename", "remoteTypeName"),
  ("id", "remoteId"),
  ("internal", "remoteInternal"),
  ("children", "remoteChildren"),
  ("parent", "remoteParent")]

/-- The alias of a field name; an empty one counts as none. -/
def Aliases.alias? (aliases : Aliases) (name : String) : Option String :=
  (Keyed.get? aliases name).filter (· != "")

/-- Whether a type is a node type or an interface that a node type implements. -/
def Schema.isNodeType (schema : Schema) (types : List String) (t : NamedType) : Bool :=
  if t.isUnion then false
  else if t.isObject then types.contains t.name
  else (schema.possibleTypes t).any fun p => types.contains p.name

/-- The rewriting that gives aliases to fields of the node types. -/
def aliasRewriting (schema : Schema) (types : List String) (aliases : Aliases) : Rewriting where
  field parent? := fun
    | .field alias? name arguments directives selections? =>
      let aliased :=
        match aliases.alias? name with
        | none => alias?
        | some new =>
          if name == "__typename" then
            if alias? == none || alias? == some "__typename" then some new else alias?
          else if alias? == none && parent?.any (schema.isNodeType types) then some new
          else alias?
      .field aliased name arguments directives selections?
    | s => s

/-- The document with aliases for reserved names. -/
def Document.addAliases (document : Document) (schema : Schema) (types : List String)
    (aliases : Aliases) : Document :=
  document.rewrite schema (aliasRewriting schema types aliases)

end RemoteNodes
