import RemoteNodes.Document.Alias
import RemoteNodes.Json.Parser
import RemoteNodes.Node.Declaration
/-!
Configurations: the node types to be fetched and aliases for field names, as a JSON object with
the keys `nodeTypes` and `fieldAliases`. The names with underscores, such as `node_types`, are
understood too. The queries of a node type may be given as a list of lines.

* `Configuration.ofJson`: the configuration that a value describes, or all issues with the value.
* `Configuration.read`: the same for a text.
* `Configuration.aliases`: the default aliases with those of the configuration over them.
-/

namespace RemoteNodes

/-- What is to be fetched. -/
structure Configuration where
  nodeTypes : List NodeDeclaration
  fieldAliases : Aliases
  deriving Repr

/-- A value of a configuration, or what is wrong with it. -/
inductive Checked (α : Type) where
  | valid (value : α)
  | invalid (issues : List Issue)

namespace Checked

variable {α β γ : Type}

/-- One issue at the value itself. -/
def issue (kind : IssueKind) : Checked α := .invalid [⟨kind, []⟩]

/-- The issues of a part of a value, seen from the value. -/
def within (step : String ⊕ Nat) : Checked α → Checked α
  | .valid value => .valid value
  | .invalid issues => .invalid (issues.map fun i => { i with location := step :: i.location })

/-- Two parts; the issues of both are kept. -/
def both (f : α → β → γ) : Checked α → Checked β → Checked γ
  | .valid a, .valid b => .valid (f a b)
  | .valid _, .invalid issues => .invalid issues
  | .invalid issues, .valid _ => .invalid issues
  | .invalid first, .invalid second => .invalid (first ++ second)

/-- A list of parts; the issues of all are kept. -/
def all : List (Checked α) → Checked (List α)
  | [] => .valid []
  | x :: xs => both List.cons x (all xs)

end Checked

namespace Configuration

/-- The value under a name, or under its other spelling, as the part that `check` finds in it. -/
def part {α : Type} (fields : Keyed Json) (name spelling : String)
    (absent : Checked α) (check : Json → Checked α) : Checked α :=
  match Keyed.get? fields name with
  | some value => (check value).within (.inl name)
  | none =>
    match Keyed.get? fields spelling with
    | some value => (check value).within (.inl spelling)
    | none => absent

/-- The issue that a name is missing. -/
def missing {α : Type} (name : String) : Checked α := (Checked.issue .missing).within (.inl name)

/-- A text. -/
def checkText : Json → Checked String
  | .str text => .valid text
  | _ => .issue .notAString

/-- The name of a type, which is not empty. -/
def checkType : Json → Checked String
  | .str "" => .issue .emptyString
  | value => checkText value

/-- Queries, given as a text or as lines. -/
def checkQueries : Json → Checked String
  | .arr lines => .valid ("\n".intercalate (lines.filterMap Json.str?))
  | value => checkText value

/-- A node type. -/
def checkNodeType : Json → Checked NodeDeclaration
  | .obj fields =>
    .both NodeDeclaration.mk
      (part fields "remoteTypeName" "remote_type_name" (missing "remoteTypeName") checkType)
      (part fields "queries" "queries" (missing "queries") checkQueries)
  | _ => .issue .notAnObject

/-- The node types, of which there is at least one. -/
def checkNodeTypes : Json → Checked (List NodeDeclaration)
  | .arr [] => .issue .emptyList
  | .arr items =>
    .all ((items.zipIdx).map fun (item, index) => (checkNodeType item).within (.inr index))
  | _ => .issue .notAList

/-- Aliases by field names. -/
def checkAliases : Json → Checked Aliases
  | .obj fields =>
    .all (fields.map fun (name, value) =>
      Checked.both Prod.mk (.valid name) ((checkText value).within (.inl name)))
  | _ => .issue .notAMapping

/-- A configuration. -/
def check : Json → Checked Configuration
  | .obj fields =>
    .both Configuration.mk
      (part fields "nodeTypes" "node_types" (missing "nodeTypes") checkNodeTypes)
      (part fields "fieldAliases" "field_aliases" (.valid []) checkAliases)
  | _ => .issue .notAnObject

/-- The items of a list under a name. -/
def listed (fields : Keyed Json) (name spelling : String) : List Json :=
  match (Keyed.get? fields name).or (Keyed.get? fields spelling) with
  | some (.arr items) => items
  | _ => []

/-- Whether queries are given as a list in which something is no line. -/
def hasBadLines (value : Json) : Bool :=
  match value with
  | .obj fields =>
    (listed fields "nodeTypes" "node_types").any fun
      | .obj type => (listed type "queries" "queries").any fun line => line.str?.isNone
      | _ => false
  | _ => false

/-- The configuration that a value describes. Lines that are no texts make it malformed, whatever
else is wrong. -/
def ofJson (value : Json) : Except Fault Configuration :=
  if hasBadLines value then .error .malformed
  else
    match check value with
    | .valid configuration => .ok configuration
    | .invalid issues => .error (.invalidConfiguration issues)

/-- The configuration that a text describes. -/
def read (text : String) : Except Fault Configuration :=
  match Json.parse? text with
  | some value => ofJson value
  | none => .error .unreadableJson

/-- The default aliases with those of the configuration over them. -/
def aliases (c : Configuration) : Aliases := Keyed.overlay defaultAliases c.fieldAliases

end Configuration

end RemoteNodes
