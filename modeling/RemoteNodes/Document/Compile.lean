import RemoteNodes.Document.Alias
import RemoteNodes.Document.Pruning
import RemoteNodes.Document.Spreading
import RemoteNodes.Document.Typename
import RemoteNodes.Document.Variables
/-!
Compiling the queries of node types and custom fragments into documents. Each node type gets one
document with its operations and all the fragments that they need:

    query LIST_Foo { allFoo { ...FooId } }
    fragment FooId on Foo { id }

becomes `query LIST_Foo { allFoo { remoteTypeName: __typename ...FooId ...Foo } }` with aliases
and the fragments `FooId` and `Foo`.

* `compileDocument`: the stages for one node type.
* `compileQueries`: the documents of all node types.
* `nodeDefinitions`: the compiled documents with what is needed to fetch nodes by them.
-/

namespace RemoteNodes

/-- The fragments that sources define. -/
def readFragments (sources : List String) : Except Fault (List Fragment) := do
  let documents ← sources.mapM Document.parse
  return documents.flatMap Document.fragments

/-- The document of one node type: its queries with the fragments, after all stages. -/
def compileDocument (schema : Schema) (declarations : List NodeDeclaration)
    (declaration : NodeDeclaration) (queries : Document)
    (nodeFragments otherFragments : List Fragment)
    (aliases : Aliases) (idFragment : String) : Report Document := do
  let document : Document := queries ++ (nodeFragments ++ otherFragments).map Definition.fragment
  let document := document.addSpreads schema declaration.type (nodeFragments.map (·.name))
  let document := document.addTypenames schema
  let document := document.addAliases schema (declarations.map (·.type)) aliases
  let document ← document.declareVariables schema
  let document ← Report.of document.removeUnused
  Report.of (document.removeIdDuplicates schema declaration.type idFragment)

/-- The documents of the declarations from a position on. -/
def compileEach (schema : Schema) (declarations : List NodeDeclaration)
    (nodeFragments : Keyed (List Fragment)) (otherFragments : List Fragment) (aliases : Aliases) :
    (index : Nat) → List NodeDeclaration → Report (List (String × Document))
  | _, [] => pure []
  | index, d :: ds => do
    let (queries, idFragment) ← Report.of (d.read index)
    let document ← compileDocument schema declarations d queries
      ((Keyed.get? nodeFragments d.type).getD []) otherFragments aliases idFragment.name
    let rest ← compileEach schema declarations nodeFragments otherFragments aliases (index + 1) ds
    return (d.type, document) :: rest

/-- The documents of all node types. -/
def compileQueries (schema : Schema) (declarations : List NodeDeclaration)
    (fragmentSources : List String) (aliases : Aliases) : Report (Keyed Document) := do
  let fragments ← Report.of (readFragments fragmentSources)
  let references ← Report.of (referenceFragments schema declarations)
  let usages ← typeUsages schema fragments references
  let documents ← compileEach schema declarations
    (nodeFragments schema declarations usages references fragments)
    (otherFragments schema declarations references fragments) aliases 0 declarations
  return Keyed.ofPairs documents

/-- A node type with its compiled document. -/
structure NodeDefinition where
  type : String
  document : Document
  /-- The name of the ID fragment. -/
  idFragmentName : String
  deriving Repr

namespace NodeDefinition

/-- The ID fragment as it was compiled. -/
def idFragment (d : NodeDefinition) : Except Fault Fragment :=
  match d.document.fragments.find? (·.name == d.idFragmentName) with
  | some f => .ok f
  | none => .error (.noIdFragment d.idFragmentName d.type)

end NodeDefinition

/-- The definitions of the declarations from a position on. -/
def definitionsFrom (documents : Keyed Document) :
    (index : Nat) → List NodeDeclaration → Except Fault (List (String × NodeDefinition))
  | _, [] => .ok []
  | index, d :: ds => do
    match Keyed.get? documents d.type with
    | none => throw (.configuration (.noDocument d.type))
    | some document =>
      let (_, idFragment) ← d.read index
      let rest ← definitionsFrom documents (index + 1) ds
      return (d.type, ⟨d.type, document, idFragment.name⟩) :: rest

/-- The definitions of all node types. -/
def nodeDefinitions (declarations : List NodeDeclaration) (documents : Keyed Document) :
    Except Fault (Keyed NodeDefinition) := do
  return Keyed.ofPairs (← definitionsFrom documents 0 declarations)

end RemoteNodes
