import RemoteNodes.CommandLine.Command
import RemoteNodes.Configuration
import RemoteNodes.Fetch.Source
import RemoteNodes.Network.Exchange
import RemoteNodes.Schema.Introspection
import RemoteNodes.Storage.DocumentFiles
import RemoteNodes.Storage.SchemaFiles
/-!
Running commands. A command works on files and with a server, prints, and ends in an outcome.

* `Workplace`: all that a command changes.
* `Command.run`: a command to its outcome.
* `runWords`: a whole command line.
* `Outcome.exitCode`: zero for success, two for a command line that cannot be understood, else one.
-/

namespace RemoteNodes

/-- What a command changes: the files, the server's side, what was printed and told, and the
warnings. -/
structure Workplace (σ : Type) where
  files : FileTree
  remote : σ
  /-- What was printed as the result. -/
  printed : String := ""
  /-- What was told beside the result. -/
  told : String := ""
  warnings : List Warning := []

/-- How a command ends. -/
inductive Outcome where
  | done
  | misused (fault : UsageFault)
  /-- The configuration file at a path is of no use. -/
  | badConfiguration (path : String) (cause : Fault)
  | failed (cause : Fault)
  deriving Repr

namespace Outcome

/-- The exit code of a program that ends so. -/
def exitCode : Outcome → Nat
  | done => 0
  | misused _ => 2
  | badConfiguration .. => 1
  | failed _ => 1

/-- What went wrong underneath. -/
def cause? : Outcome → Option Fault
  | badConfiguration _ cause => some cause
  | failed cause => some cause
  | _ => none

/-- The wording of an outcome, where it has one of its own. -/
def message? : Outcome → Option String
  | done => none
  | misused fault => some fault.message
  | badConfiguration path _ => some ("Invalid config file " ++ path)
  | failed cause =>
    match cause with
    | .configuration _ | .node _ | .query .. | .noSchemaFiles _ =>
      cause.message?.map Json.display
    | .storage _ .missing => some StorageFault.missing.message
    | _ => none

end Outcome

namespace Workplace

variable {σ α : Type}

/-- Work on the files alone. -/
def onFiles (work : Session FileTree α) : Session (Workplace σ) α := do
  let place ← getThe (Workplace σ)
  let (outcome, files) := work.run.run place.files
  set { place with files }
  match outcome with
  | .ok value => return value
  | .error fault => throw fault

/-- Prints a part of the result. -/
def print (text : String) : Session (Workplace σ) Unit :=
  modifyThe (Workplace σ) fun place => { place with printed := place.printed ++ text }

/-- Tells something beside the result. -/
def tell (text : String) : Session (Workplace σ) Unit :=
  modifyThe (Workplace σ) fun place => { place with told := place.told ++ text }

/-- The way to servers, for work on more than the server's side. Warnings are kept. -/
def network (network : Network σ) : Network (Workplace σ) where
  choose endpoint := do
    let place ← get
    let ((), remote) := (network.choose endpoint).run place.remote
    set { place with remote }
  send request := do
    let place ← getThe (Workplace σ)
    let (outcome, remote) := (network.send request).run.run place.remote
    set { place with remote }
    match outcome with
    | .ok reply => return reply
    | .error fault => throw fault
  warn warnings :=
    modify fun place => { place with warnings := place.warnings ++ warnings }

end Workplace

/-- The line of a record. -/
def NodeRecord.line (r : NodeRecord) : String :=
  (Json.obj [("remoteTypeName", .str r.type), ("id", .str r.id), ("node", r.node)]).spaced ++ "\n"

/-- The configuration in a file. -/
def FileTree.configuration (tree : FileTree) (path : String) : Except Fault Configuration :=
  match tree.read? path with
  | some text => Configuration.read text
  | none => .error .malformed

namespace Command

variable {σ : Type}

/-- Writes the missing default fragments. -/
def runFragments (configuration : Configuration) (schemaPath output : String) (verbose : Bool) :
    Session (Workplace σ) Unit := do
  Workplace.print "Loading schema...\n"
  let schema ← (← getThe (Workplace σ)).files.loadSchema schemaPath
  let fragments ← Workplace.onFiles
    (readFragmentFiles output schema configuration.nodeTypes configuration.aliases [])
  if verbose then
    Workplace.print (String.join (fragments.map fun p => "  " ++ p.1 ++ "\n"))
  let place ← getThe (Workplace σ)
  Workplace.print ("Done! " ++ toString fragments.length ++ " fragments in " ++
    place.files.resolve output ++ "\n")

/-- Writes the compiled documents. -/
def runCompile (network : Network (Workplace σ)) (configuration : Configuration)
    (schemaPath fragmentFolder output : String) (verbose : Bool) : Session (Workplace σ) Unit := do
  let schema ← (← getThe (Workplace σ)).files.loadSchema schemaPath
  let fragments ← Workplace.onFiles
    (readFragmentFiles fragmentFolder schema configuration.nodeTypes configuration.aliases [])
  Workplace.print "Compiling queries...\n"
  let documents ← network.report
    (compileQueries schema configuration.nodeTypes (Keyed.values fragments) configuration.aliases)
  let paths ← Workplace.onFiles (writeDocuments output documents)
  if verbose then
    Workplace.print (String.join (paths.map fun path => "  " ++ Path.name path ++ "\n"))
  let place ← getThe (Workplace σ)
  Workplace.print ("Done! Compiled queries in " ++ place.files.resolve output ++ "\n")

/-- Fetches all nodes and writes them as lines, to a file or, for a dash, as what is printed. The
file is made with the first line. -/
def runFetch (network : Network (Workplace σ)) (pageLimit : Nat) (configuration : Configuration)
    (endpoint : Endpoint) (schemaPath? : Option String) (fragmentFolder output : String) :
    Session (Workplace σ) Unit := do
  network.choose endpoint
  let execute := network.executor endpoint
  let schema ← match schemaPath? with
    | some path => do
      let place ← getThe (Workplace σ)
      place.files.loadSchema path
    | none => introspect execute
  let fragments ← Workplace.onFiles
    (readFragmentFiles fragmentFolder schema configuration.nodeTypes configuration.aliases [])
  let documents ← network.report
    (compileQueries schema configuration.nodeTypes (Keyed.values fragments) configuration.aliases)
  let definitions ← (nodeDefinitions configuration.nodeTypes documents : Except Fault _)
  let sourcing : Sourcing (Workplace σ) :=
    { definitions, execute, aliases := configuration.aliases, pageLimit }
  let (records, _) ← (sourcing.source : Session (Workplace σ) _)
  let text := String.join (records.items.map NodeRecord.line)
  if output == "-" then Workplace.print text
  else if !records.items.isEmpty then
    Workplace.onFiles (changeFiles output (·.write output text))
  let written ← records.complete
  Workplace.tell ("Done! Fetched " ++ toString written.length ++ " nodes\n")

/-- The way of a session to its outcome. -/
def outcomeOf (work : Session (Workplace σ) Unit) : StateM (Workplace σ) Outcome := do
  match ← work.run with
  | .ok () => return .done
  | .error cause => return .failed cause

/-- Runs a part of a command with the configuration at a path. -/
def withConfiguration (path : String)
    (work : Configuration → StateM (Workplace σ) Outcome) : StateM (Workplace σ) Outcome := do
  match (← get).files.configuration path with
  | .ok configuration => work configuration
  | .error .malformed => return .failed .malformed
  | .error cause => return .badConfiguration path cause

/-- The text for those who ask for help. -/
def helpText : String :=
  "Commands: fragments (-s -c -o), compile (-s -c -f -o), fetch (-e -c -f [-s -H -o])\n"

/-- Runs a command. -/
def run (network : Network (Workplace σ)) (pageLimit : Nat) :
    Command → StateM (Workplace σ) Outcome
  | help => outcomeOf (Workplace.print helpText)
  | fragments schema config output verbose =>
    withConfiguration config fun c => outcomeOf (runFragments c schema output verbose)
  | compile schema config folder output verbose =>
    withConfiguration config fun c =>
      outcomeOf (runCompile network c schema folder output verbose)
  | fetch url schema? config folder headers concurrency output =>
    withConfiguration config fun c =>
      match Header.readAll headers with
      | .error (.badHeader text) => return .misused (.badHeader text)
      | .error cause => return .failed cause
      | .ok headers =>
        outcomeOf (runFetch network pageLimit c ⟨url, headers, concurrency⟩ schema? folder output)

end Command

/-- Runs a command line. -/
def runWords {σ : Type} (network : Network σ) (pageLimit : Nat) (environment : Keyed String)
    (words : List String) : StateM (Workplace σ) Outcome := do
  match Command.read ⟨(← get).files, environment⟩ words with
  | .error fault => return .misused fault
  | .ok command => command.run (Workplace.network network) pageLimit

end RemoteNodes
