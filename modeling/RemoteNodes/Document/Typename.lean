import RemoteNodes.Selection.Rewrite
/-!
Type names in answers. Every selection set of a field of composite type selects `__typename`.

* `typenameRewriting`: what becomes of a selection set.
* `Document.addTypenames`: the stage.
-/

namespace RemoteNodes

/-- The rewriting that selects `__typename` first where it is missing. -/
def typenameRewriting : Rewriting where
  set owner parent? selections :=
    if owner == .field && parent?.isSome && !selections.any (·.isPlainTypename) then
      .plain "__typename" :: selections
    else selections

/-- The document with `__typename` in all selection sets of composite fields. -/
def Document.addTypenames (document : Document) (schema : Schema) : Document :=
  document.rewrite schema typenameRewriting

end RemoteNodes
