import RemoteNodes.Selection.Rewrite
/-!
Spreading node fragments. Wherever an operation spreads a fragment on the node type, or on an
abstract type that the node type belongs to, it gets `__typename` first and a spread of every node
fragment that is not spread there yet. Fragments stay as they are.

* `spreadRewriting`: what becomes of a selection set.
* `Document.addSpreads`: the stage.
-/

namespace RemoteNodes

/-- Whether selections on a type can be selections on the node type: it is that type or stands above
it. -/
def Schema.covers (schema : Schema) (parent? : Option NamedType) (type : String) : Bool :=
  match parent? with
  | none => false
  | some t =>
    t.name == type || (t.isAbstract && (schema.possibleTypes t).any (·.name == type))

/-- Selections with `__typename` in front and the missing spreads at the end. A `__typename` under
an alias of its own stands for both. -/
def insertSpreads (names : List String) (selections : List Selection) : List Selection :=
  let present := selections.filterMap (·.spread?)
  let spreads := (names.filter (!present.contains ·)).map (Selection.spread · [])
  if selections.any (fun s => s.isTypename && !s.isPlainTypename) then selections ++ spreads
  else .plain "__typename" :: selections.filter (!·.isPlainTypename) ++ spreads

/-- The rewriting that adds spreads of the named fragments on a node type. -/
def spreadRewriting (schema : Schema) (type : String) (names : List String) : Rewriting where
  set _ parent? selections :=
    if selections.any (·.isSpread) && schema.covers parent? type then
      insertSpreads names selections
    else selections

/-- The document with node fragments spread in its operations. -/
def Document.addSpreads (document : Document) (schema : Schema) (type : String)
    (names : List String) : Document :=
  document.map fun
    | .operation o => .operation (o.rewrite schema (spreadRewriting schema type names))
    | definition => definition

end RemoteNodes
