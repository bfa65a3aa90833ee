import RemoteNodes.Json.Printer
/-!
What can go wrong, as causes; the wording of each cause stands in one function.

* `Fault`: the causes of failure; `Fault.message?`: the wording of those that have one.
* `Warning`: what is worth telling although work goes on.
* `Report`: a computation that collects warnings and may fail; the warnings given before a failure
  stay.
-/

namespace RemoteNodes

/-- What is wrong with declarations, documents or their use. -/
inductive ConfigurationFault where
  | unnamedType (index : Nat)
  | noQueries (type : String) (index : Nat)
  | idFragmentCount (type : String) (index count : Nat)
  | idFragmentElsewhere (fragment type condition : String) (index : Nat)
  | notAnObjectType (type : String) (index : Nat)
  | unknownType (type : String)
  | noTypeFragment (type : String)
  | unnamedQuery
  | idFragmentLost (type : String)
  | noDocument (type : String)
  | noOperation (operation : String)
  | tooDeep (path : List String)
  | noFragment (fragment : String)
  | noStrategy (names : List String)
  | noPaginatedField (operation strategy : String)
  | noDefinition (type : String)
  | noNodeOperation (type : String)
  deriving Repr, DecidableEq

/-- The wording of a configuration fault. -/
def ConfigurationFault.message : ConfigurationFault → String
  | unnamedType index =>
    "Every node type definition is expected to have \"remote_type_name\". " ++
      "But definition at index " ++ toString index ++ " has none."
  | noQueries type index =>
    "Every node type definition is expected to have \"queries\". But definition for " ++ type ++
      " (at index " ++ toString index ++ ") has none."
  | idFragmentCount type index count =>
    "Every node type query is expected to contain a single fragment with ID fields for " ++
      "this node type. Definition for " ++ type ++ " (at index " ++ toString index ++ ") has " ++
      toString count ++ "."
  | idFragmentElsewhere fragment type condition index =>
    "Fragment " ++ fragment ++ " for node type " ++ type ++ " is incorrectly defined on type " ++
      condition ++ " (for definition at index " ++ toString index ++ ")"
  | notAnObjectType type index =>
    "Only object types can be defined as node types. Got " ++ type ++
      " (for definition at index " ++ toString index ++ ")"
  | unknownType type => "Unknown remote GraphQL type " ++ type
  | noTypeFragment type => "Missing fragment for type " ++ type
  | unnamedQuery => "Every query must have a name"
  | idFragmentLost type => "Missing ID Fragment in type config for \"" ++ type ++ "\""
  | noDocument type => "Missing compiled document for node type " ++ type
  | noOperation operation => "Operation " ++ operation ++ " not found in the document"
  | tooDeep path =>
    "Reached maximum nesting level while looking for a field path: " ++ ".".intercalate path
  | noFragment fragment => "Missing fragment " ++ fragment
  | noStrategy names =>
    "Could not resolve pagination strategy for variables: " ++ ", ".intercalate names
  | noPaginatedField operation strategy =>
    "Operation " ++ operation ++ " has no field with " ++ strategy ++ " pagination arguments"
  | noDefinition type => "Could not get node definition for type " ++ type
  | noNodeOperation type => "Could not find node re-fetching operation for " ++ type

/-- Why a value cannot be identified as a remote node. -/
inductive NodeFault where
  | notAnObject (value : Json)
  | missingValue (key : String) (present : List String)
  deriving Repr

/-- The wording of a node fault. -/
def NodeFault.message : NodeFault → String
  | notAnObject value =>
    "Expecting object value for a field with selection, got " ++ value.displayInner
  | missingValue key present =>
    "Value of the ID field \"" ++ key ++ "\" can't be nullish. Got object with keys: " ++
      ", ".intercalate present

/-- What is wrong with a configuration value. -/
inductive IssueKind where
  | missing
  | notAString
  | emptyString
  | notAList
  | emptyList
  | notAnObject
  | notAMapping
  deriving Repr, DecidableEq

/-- A fault in a configuration value and the way to it: keys and positions. -/
structure Issue where
  kind : IssueKind
  location : List (String ⊕ Nat)
  deriving Repr, DecidableEq

/-- Why a file or folder cannot be written. -/
inductive StorageFault where
  | missing
  | isFolder
  | notAFolder
  | exists
  deriving Repr, DecidableEq

/-- The wording of a storage fault. -/
def StorageFault.message : StorageFault → String
  | missing => "No such file or directory"
  | isFolder => "Is a directory"
  | notAFolder => "Not a directory"
  | .exists => "File exists"

/-- The causes of failure. -/
inductive Fault where
  | configuration (cause : ConfigurationFault)
  | node (cause : NodeFault)
  /-- A server gave no data; its own message and errors. -/
  | query (message : Json) (errors : List Json)
  /-- A compiled document lacks the ID fragment. -/
  | noIdFragment (fragment type : String)
  /-- A limit of requests below one. -/
  | noConcurrency
  /-- A text that should be an integer. -/
  | notAnInteger (text : String)
  /-- A list that should consist of pairs. -/
  | notPairs (index length : Nat)
  | noSchemaFiles (path : String)
  /-- A file or folder that cannot be read or written. -/
  | storage (path : String) (cause : StorageFault)
  | badHeader (text : String)
  /-- A text that writes no address. -/
  | unreadableAddress
  /-- An address that names no server. -/
  | noServer (address : String)
  /-- A GraphQL text that cannot be read. -/
  | unreadableGraph
  /-- A value that does not fit the type of its argument. -/
  | unfitArgument
  /-- A part of a schema whose name or default no document could write. -/
  | unwritablePart
  /-- Definitions that do not make up a schema. -/
  | invalidSchema
  | invalidConfiguration (issues : List Issue)
  /-- A JSON text that cannot be read. -/
  | unreadableJson
  /-- An answer that is no JSON and has a status other than success. -/
  | httpStatus (status : Int)
  /-- No connection to the server. -/
  | unreachable
  /-- The cut of a walk that asks for more pages than it has room for. It only makes walks total:
  they have no such end of their own. -/
  | tooManyPages
  /-- A value of a shape that nothing is defined for. -/
  | malformed
  deriving Repr

/-- A configuration fault is a fault. -/
instance : MonadLift (Except ConfigurationFault) (Except Fault) :=
  ⟨Except.mapError Fault.configuration⟩

namespace Fault

/-- The wording of a fault, where it has one of its own. -/
def message? : Fault → Option Json
  | configuration cause => some (.str cause.message)
  | node cause => some (.str cause.message)
  | query message _ => some message
  | noIdFragment fragment type =>
    some (.str ("ID fragment " ++ fragment ++ " is not part of the compiled document for " ++ type))
  | noConcurrency => some (.str "concurrency must be a positive number")
  | notAnInteger text =>
    some (.str ("invalid literal for int() with base 10: " ++ Text.quoted text))
  | notPairs index length =>
    some (.str ("dictionary update sequence element #" ++ toString index ++ " has length " ++
      toString length ++ "; 2 is required"))
  | noSchemaFiles path => some (.str ("No schema files found at " ++ path))
  | storage path .missing =>
    some (.str ("[Errno 2] " ++ StorageFault.missing.message ++ ": " ++ Text.quoted path))
  | badHeader text => some (.str ("Expected 'Name: value', got " ++ Text.quoted text))
  | noServer address => some (.str ("unknown url type: " ++ Text.quoted address))
  | _ => none

end Fault

/-- What is worth telling although work goes on. -/
inductive Warning where
  | undefinedField (field type : String) (isObject : Bool)
  | fragmentSkipped (fragment type : String)
  | untypedVariable (name : String)
  | failedRequest (operation : String) (status : Int) (bindings : String)
  | partialData (operation : String) (messages : List String) (bindings : String)
  deriving Repr, DecidableEq

/-- The wording of a warning. -/
def Warning.message : Warning → String
  | undefinedField field type isObject =>
    "Field " ++ field ++ " is not defined on " ++ (if isObject then "object type " else
      "abstract type ") ++ type ++ ", it will not be fetched"
  | fragmentSkipped fragment type =>
    "Fragment " ++ fragment ++ " is defined on unknown or non-composite type " ++ type ++
      ", skipping"
  | untypedVariable name => "Cannot infer the type of variable $" ++ name
  | failedRequest operation status bindings =>
    "Query " ++ operation ++ " returned status " ++ toString status ++ ". Query variables: " ++
      bindings
  | partialData operation messages bindings =>
    "Query " ++ operation ++ " returned warnings: " ++ "; ".intercalate messages ++
      ". Query variables: " ++ bindings

/-- The outcome of a computation with the warnings given on the way, also when it fails. -/
structure Report (α : Type) where
  warnings : List Warning
  outcome : Except Fault α

namespace Report

variable {α β : Type}

/-- A computation that may fail and gives no warnings. -/
def of (outcome : Except Fault α) : Report α := ⟨[], outcome⟩

/-- Gives warnings. -/
def warn (warnings : List Warning) : Report Unit := ⟨warnings, .ok ()⟩

/-- The warnings of both steps are kept; after a failure there is no second step. -/
instance : Monad Report where
  pure a := ⟨[], .ok a⟩
  bind x f :=
    match x.outcome with
    | .error e => ⟨x.warnings, .error e⟩
    | .ok a => let y := f a; ⟨x.warnings ++ y.warnings, y.outcome⟩

/-- A computation that may fail gives no warnings. -/
instance : MonadLift (Except Fault) Report := ⟨of⟩

@[simp] theorem pure_outcome (a : α) : (pure a : Report α).outcome = .ok a := rfl

@[simp] theorem pure_warnings (a : α) : (pure a : Report α).warnings = [] := rfl

theorem bind_of_ok {x : Report α} {a : α} (f : α → Report β) (h : x.outcome = .ok a) :
    x >>= f = ⟨x.warnings ++ (f a).warnings, (f a).outcome⟩ := by
  simp [bind, h]

theorem bind_of_error {x : Report α} {e : Fault} (f : α → Report β) (h : x.outcome = .error e) :
    x >>= f = ⟨x.warnings, .error e⟩ := by
  simp [bind, h]

end Report

end RemoteNodes
