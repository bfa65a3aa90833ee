import RemoteNodes.CommandLine.Options
import RemoteNodes.Decimal.Numeral
import RemoteNodes.Storage.Tree
/-!
The commands: `fragments` writes default fragments, `compile` writes compiled documents, and `fetch`
fetches all nodes.

* `Command.read`: the command that the words of a command line give, its options checked.
-/

namespace RemoteNodes

/-- A command with its settings. -/
inductive Command where
  | help
  | fragments (schema config output : String) (verbose : Bool)
  | compile (schema config fragments output : String) (verbose : Bool)
  | fetch (endpoint : String) (schema? : Option String) (config fragments : String)
      (headers : List String) (concurrency : Int) (output : String)
  deriving Repr

namespace Command

/-- What commands can look at before they run: the files and the environment. -/
structure Surroundings where
  files : FileTree
  environment : Keyed String

/-! ### The options -/

def schemaForm : OptionForm := { name := "schema", letter? := some 's' }
def configForm : OptionForm := { name := "config", letter? := some 'c' }
def fragmentsForm : OptionForm := { name := "fragments", letter? := some 'f' }
def outputForm : OptionForm := { name := "output", letter? := some 'o' }
def verboseForm : OptionForm := { name := "verbose", letter? := some 'v', takesValue := false }
def helpForm : OptionForm := { name := "help", takesValue := false }
def endpointForm : OptionForm := { name := "endpoint", letter? := some 'e' }
def headerForm : OptionForm := { name := "header", letter? := some 'H' }
def concurrencyForm : OptionForm := { name := "concurrency" }

/-- The number of requests at a time, unless something else is said. -/
def usualConcurrency : Int := 10

/-- The variable of the environment that gives the number of requests at a time. -/
def concurrencyVariable : String := "GQL_SOURCE_CONCURRENCY"

namespace Surroundings

/-- A path to something that is there. -/
def existing (s : Surroundings) (path : String) : Except UsageFault String :=
  if s.files.has path then .ok path else .error (.noSuchPath path)

/-- A path to a file that is there. -/
def file (s : Surroundings) (path : String) : Except UsageFault String := do
  let path ← s.existing path
  if s.files.isFolder path then throw (.notAFile path) else return path

/-- A path to a folder, or to nothing yet. -/
def folder (s : Surroundings) (path : String) : Except UsageFault String :=
  if s.files.isFile path then .error (.notAFolder path) else .ok path

/-- The number of requests at a time: from its option, else from the environment. -/
def concurrency (s : Surroundings) (given : GivenOptions) : Except UsageFault Int :=
  let fromEnvironment? := (Keyed.get? s.environment concurrencyVariable).filter (· != "")
  match (given.last? "concurrency").or fromEnvironment? with
  | none => .ok usualConcurrency
  | some text =>
    match Numeral.readInt? text with
    | some n => if 1 ≤ n then .ok n else .error (.badNumber text)
    | none => .error (.badNumber text)

end Surroundings

/-- The options of a command; nothing but options may follow its name. -/
def options (forms : List OptionForm) (words : List String)
    (build : GivenOptions → Except UsageFault Command) : Except UsageFault Command := do
  let (given, extra) ← readOptions (helpForm :: forms) words
  if given.has "help" then return .help
  let command ← build given
  match extra with
  | [] => return command
  | word :: _ => throw (.needlessWord word)

/-- The command that writes default fragments. -/
def readFragments (s : Surroundings) (words : List String) : Except UsageFault Command :=
  options [schemaForm, configForm, outputForm, verboseForm] words fun given => do
    let schema ← s.existing (← given.required "schema")
    let config ← s.file (← given.required "config")
    let output ← s.folder (← given.required "output")
    return .fragments schema config output (given.has "verbose")

/-- The command that writes compiled documents. -/
def readCompile (s : Surroundings) (words : List String) : Except UsageFault Command :=
  options [schemaForm, configForm, fragmentsForm, outputForm, verboseForm] words fun given => do
    let schema ← s.existing (← given.required "schema")
    let config ← s.file (← given.required "config")
    let fragments ← s.folder (← given.required "fragments")
    let output ← s.folder (← given.required "output")
    return .compile schema config fragments output (given.has "verbose")

/-- The command that fetches all nodes. -/
def readFetch (s : Surroundings) (words : List String) : Except UsageFault Command :=
  options [endpointForm, schemaForm, configForm, fragmentsForm, headerForm, concurrencyForm,
      outputForm, verboseForm] words fun given => do
    let endpoint ← given.required "endpoint"
    let schema? ← (given.last? "schema").mapM s.existing
    let config ← s.file (← given.required "config")
    let fragments ← s.folder (← given.required "fragments")
    let concurrency ← s.concurrency given
    return .fetch endpoint schema? config fragments (given.all "header") concurrency
      ((given.last? "output").getD "-")

/-- The command that words give. Before its name only the option for help may stand. -/
def read (s : Surroundings) : List String → Except UsageFault Command
  | [] => .error .noCommand
  | "--help" :: _ => .ok .help
  | "--" :: words => named s words
  | words => named s words
where
  /-- The command of a name. -/
  named (s : Surroundings) : List String → Except UsageFault Command
    | [] => .error .noCommand
    | "fragments" :: words => readFragments s words
    | "compile" :: words => readCompile s words
    | "fetch" :: words => readFetch s words
    | word :: _ => .error (if isOption word then .unknownOption word else .unknownCommand word)

end Command

end RemoteNodes
