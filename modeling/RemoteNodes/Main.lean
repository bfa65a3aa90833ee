import RemoteNodes.CommandLine.Run
/-!
The program. It reads the files and folders that its words name, runs the command, and then writes
what the command changed, prints what it printed and ends with its exit code. It has no way to
servers of its own, so that fetching ends with the fault that none can be reached.
-/

open RemoteNodes

namespace RemoteNodes.Program

/-- A file, or all files inside a folder, at any depth, put into a tree. -/
partial def load (tree : FileTree) (path : String) : IO FileTree := do
  match ← (IO.FS.readFile path).toBaseIO with
  | .ok text => return tree.putFile path text
  | .error _ =>
    match ← (do (← IO.FS.realPath path).readDir : IO (Array IO.FS.DirEntry)).toBaseIO with
    | .error _ => return tree
    | .ok entries =>
      entries.foldlM (fun tree entry => load tree (Path.inside path entry.fileName))
        (tree.putFolder path)

/-- The paths that a word of the command line may name: itself, or what follows an equals sign. -/
def pathsOf (word : String) : List String :=
  match word.splitOn "=" with
  | _ :: rest => [word, "=".intercalate rest].filter (· != "")
  | [] => []

/-- The folder that a path is in. -/
def folderOf (path : String) : String :=
  let names := (path.splitOn "/").dropLast
  if names == [""] then "/" else "/".intercalate names

/-- The folder that a path is in put into a tree, if it is there. -/
def loadFolder (tree : FileTree) (path : String) : IO FileTree := do
  let folder := folderOf path
  if folder == "" then return tree
  match ← (do (← IO.FS.realPath folder).readDir : IO (Array IO.FS.DirEntry)).toBaseIO with
  | .ok _ => return tree.putFolder folder
  | .error _ => return tree

/-- The files that words name and the folders that these are in. -/
def loadAll (words : List String) : IO FileTree := do
  let current := toString (← IO.currentDir)
  let paths := words.flatMap pathsOf
  let tree ← paths.foldlM load { files := [], folders := [current], current }
  paths.foldlM loadFolder tree

/-- Makes the new folders and writes the changed files. -/
def save (tree earlier : FileTree) : IO Unit := do
  for folder in tree.folders do
    if !earlier.folders.contains folder then IO.FS.createDirAll folder
  for (path, text) in tree.changes earlier do
    IO.FS.writeFile path text

/-- A network without servers. -/
def noNetwork : Network Unit where
  choose _ := pure ()
  send _ := throw .unreachable
  warn _ := pure ()

/-- How many pages a walk has room for: more than there are in any listing. -/
def pageLimit : Nat := 1000000

end RemoteNodes.Program

open RemoteNodes.Program in
/-- Runs the command that the words of the command line give. -/
def main (words : List String) : IO UInt32 := do
  let tree ← loadAll words
  let concurrency? ← IO.getEnv Command.concurrencyVariable
  let environment := (concurrency?.map fun value => (Command.concurrencyVariable, value)).toList
  let (outcome, place) :=
    (runWords noNetwork pageLimit environment words).run { files := tree, remote := () }
  save place.files tree
  IO.print place.printed
  for warning in place.warnings do
    IO.eprintln ("WARNING: " ++ warning.message)
  IO.eprint place.told
  if let some message := outcome.message? then
    IO.eprintln ("Error: " ++ message)
  return UInt32.ofNat outcome.exitCode
