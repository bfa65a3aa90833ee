import RemoteNodes.Fetch.Session
import RemoteNodes.Fragment.Default
import RemoteNodes.GraphQL.Printer
import RemoteNodes.Storage.Tree
/-!
Fragments and compiled documents in files. Each node type has one file in a folder, named after
it.

* `readFragmentFiles`: the fragments of node types. A missing file is written with the default
  fragment, and files that are there are kept as they are, so that they can be changed by hand.
* `writeDocuments`: writes compiled documents.
-/

namespace RemoteNodes

/-- The file of a node type in a folder. -/
def typeFile (folder type : String) : String :=
  Path.tidy (Path.join folder (type ++ ".graphql"))

/-- A change of the files, told by the path it is made at. -/
def changeFiles (path : String) (change : FileTree → Except StorageFault FileTree) :
    Session FileTree Unit := do
  match change (← getThe FileTree) with
  | .ok tree => set tree
  | .error cause => throw (.storage path cause)

/-- The text of the file of a node type; a missing one is written. -/
def fragmentFile (path type : String) (defaults : Thunk (Except Fault (Keyed String))) :
    Session FileTree String := do
  let tree ← getThe FileTree
  match tree.read? path with
  | some text => return text
  | none =>
    if tree.isFolder path then throw (.storage path .isFolder)
    match Keyed.get? (← defaults.get) type with
    | none => throw .malformed
    | some text =>
      changeFiles path (·.write path text)
      return text

/-- The fragments of declarations from their files; missing ones are written. -/
def fragmentFilesOf (folder : String) (defaults : Thunk (Except Fault (Keyed String))) :
    List NodeDeclaration → Session FileTree (List (String × String))
  | [] => return []
  | d :: ds => do
    let text ← fragmentFile (typeFile folder d.type) d.type defaults
    let rest ← fragmentFilesOf folder defaults ds
    return (d.type, text) :: rest

/-- The fragments of node types in a folder, which is made if it is missing. -/
def readFragmentFiles (folder : String) (schema : Schema) (declarations : List NodeDeclaration)
    (aliases : Aliases) (resolvers : List ArgumentResolver) : Session FileTree (Keyed String) := do
  changeFiles folder (·.makeFolder folder)
  return Keyed.ofPairs (← fragmentFilesOf folder
    (Thunk.mk fun _ => defaultFragmentTexts schema declarations aliases resolvers) declarations)

/-- Writes the documents of node types into a folder, which is made if it is missing; gives their
paths. -/
def writeDocuments (folder : String) (documents : Keyed Document) :
    Session FileTree (List String) := do
  changeFiles folder (·.makeFolder folder)
  documents.mapM fun (type, document) => do
    let path := typeFile folder type
    changeFiles path (·.write path (document.text ++ "\n"))
    return path

end RemoteNodes
