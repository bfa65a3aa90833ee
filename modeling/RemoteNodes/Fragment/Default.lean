import RemoteNodes.Fragment.Generic
import RemoteNodes.Fragment.Inlining
import RemoteNodes.Fragment.Unwrapping
import RemoteNodes.GraphQL.Printer
/-!
Default fragments: for each node type a fragment that selects every field that can be selected,
with other nodes shown by their references.

* `defaultFragments`: the default fragments of all node types.
* `defaultFragmentTexts`: their written forms.
-/

namespace RemoteNodes

/-- The default fragment of a node type. -/
def defaultFragment (schema : Schema) (types : List String) (x : Inlining) (type : String) :
    Except Fault Fragment := do
  match Keyed.get? x.fragments type with
  | none => throw (.configuration (.unknownType type))
  | some f =>
    let f ← f.inlined x
    return (f.rewrite schema (aliasRewriting schema types x.aliases)).unwrapped

/-- The default fragments of all node types. The aliases go over the default ones. -/
def defaultFragments (schema : Schema) (declarations : List NodeDeclaration) (aliases : Aliases)
    (resolvers : List ArgumentResolver) : Except Fault (Keyed Fragment) := do
  let fragments ← typeFragments schema resolvers
  let references ← referenceFragments schema declarations
  let x : Inlining := ⟨fragments, references, Keyed.overlay defaultAliases aliases⟩
  let types := declarations.map (·.type)
  let entries ← types.mapM fun type => do return (type, ← defaultFragment schema types x type)
  return Keyed.ofPairs entries

/-- The default fragments of all node types as they are written. -/
def defaultFragmentTexts (schema : Schema) (declarations : List NodeDeclaration)
    (aliases : Aliases) (resolvers : List ArgumentResolver) : Except Fault (Keyed String) := do
  let fragments ← defaultFragments schema declarations aliases resolvers
  return fragments.map fun p => (p.1, p.2.text)

end RemoteNodes
