import RemoteNodes.Node.Declaration
import RemoteNodes.Schema.Declaration
import RemoteNodes.Storage.Tree
/-!
Schemas in files. A schema stands in one file or in all the schema files inside a folder.

* `FileTree.schemaFiles`: the files of a schema, in order of their paths.
* `FileTree.loadSchema`: the schema.
-/

namespace RemoteNodes

/-- Whether a path is one of a schema file. -/
def isSchemaPath (path : String) : Bool := path.endsWith ".graphql" || path.endsWith ".graphqls"

namespace FileTree

/-- The files of a schema. -/
def schemaFiles (tree : FileTree) (path : String) : List String :=
  if tree.isFile path then if isSchemaPath path then [path] else []
  else ((tree.walk path).filter isSchemaPath).mergeSort fun a b => decide (a ≤ b)

/-- The schema that stands in a file or folder. -/
def loadSchema (tree : FileTree) (path : String) : Except Fault Schema := do
  let files := tree.schemaFiles path
  if files.isEmpty then throw (.noSchemaFiles path)
  let document ← Document.parse ("\n".intercalate (files.filterMap tree.read?))
  Schema.ofDocument document

end FileTree

end RemoteNodes
