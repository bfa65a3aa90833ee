import Mathlib.Tactic
import RemoteNodes.Proofs.Document.Success
import RemoteNodes.Proofs.Failure
import RemoteNodes.Proofs.Node.Lookup
/-!
What compiling can fail with. Whatever the schema defines and whatever fragments select, compiling
ends with documents, with a fault of the configuration or with a text that cannot be read.

* `Fault.IsCompileFault`: these two kinds of faults.
* `compileQueriesChecked`: compiling with look-ups of fields that may fail.
* `compileQueries_failsIn`: **compiling fails in no other way**, and no look-up fails.
-/

namespace RemoteNodes

/-- The faults that compiling is meant to have: one of the configuration, or a text that cannot be
read. -/
def Fault.IsCompileFault : Fault → Prop
  | .configuration _ | .unreadableGraph => True
  | _ => False

lemma Document.parse_failsIn (text : String) :
    FailsIn Fault.IsCompileFault (Document.parse text) := by
  rw [Document.parse]
  split
  · exact .ok
  · exact .error trivial

lemma readFragments_failsIn (sources : List String) :
    FailsIn Fault.IsCompileFault (readFragments sources) :=
  (FailsIn.mapM fun text _ => Document.parse_failsIn text).bind fun _ _ => .pure

lemma NodeDeclaration.read_failsIn (d : NodeDeclaration) (index : Nat) :
    FailsIn Fault.IsCompileFault (d.read index) := by
  rw [NodeDeclaration.read]
  split
  · exact .error trivial
  split
  · exact .error trivial
  refine (Document.parse_failsIn d.queries).bind fun document _ => ?_
  split
  · split
    · exact .error trivial
    · exact .pure
  · exact .error trivial

section Compile

variable (schema : Schema)

lemma typeReferences_failsIn (index : Nat) (declarations : List NodeDeclaration) :
    FailsIn Fault.IsCompileFault (typeReferences schema index declarations) := by
  induction declarations generalizing index with
  | nil => exact .ok
  | cons d ds ih =>
      rw [typeReferences]
      refine (d.read_failsIn index).bind fun read _ => ?_
      dsimp only
      split
      · exact .error trivial
      · exact (ih (index + 1)).bind fun _ _ => .pure

lemma referenceFragments_failsIn (declarations : List NodeDeclaration) :
    FailsIn Fault.IsCompileFault (referenceFragments schema declarations) :=
  (typeReferences_failsIn schema 0 declarations).bind fun _ _ => .pure

lemma Document.removeUnused_failsIn (document : Document) :
    FailsIn Fault.IsCompileFault document.removeUnused := by
  rw [Document.removeUnused]
  split
  · exact .ok
  · exact .error trivial

lemma Document.removeIdDuplicates_failsIn (document : Document) (type idFragment : String) :
    FailsIn Fault.IsCompileFault (document.removeIdDuplicates schema type idFragment) := by
  rw [Document.removeIdDuplicates]
  split
  · exact .error trivial
  · exact .ok

variable (declarations : List NodeDeclaration) (aliases : Aliases)

lemma compileDocument_failsIn (d : NodeDeclaration) (queries : Document)
    (nodeFragments otherFragments : List Fragment) (idFragment : String) :
    FailsIn Fault.IsCompileFault (compileDocument schema declarations d queries nodeFragments
      otherFragments aliases idFragment).outcome := by
  refine Report.failsIn_bind .ok fun document _ => ?_
  refine Report.failsIn_bind (Document.removeUnused_failsIn document) fun used _ => ?_
  exact Document.removeIdDuplicates_failsIn schema used d.type idFragment

lemma compileEach_failsIn (nodeFragments : Keyed (List Fragment)) (otherFragments : List Fragment)
    (index : Nat) (ds : List NodeDeclaration) :
    FailsIn Fault.IsCompileFault (compileEach schema declarations nodeFragments otherFragments
      aliases index ds).outcome := by
  induction ds generalizing index with
  | nil => exact .ok
  | cons d ds ih =>
      refine Report.failsIn_bind (d.read_failsIn index) fun read _ => ?_
      refine Report.failsIn_bind (compileDocument_failsIn schema declarations aliases _ _ _ _ _)
        fun document _ => ?_
      exact Report.failsIn_bind (ih (index + 1)) fun _ _ => .ok

/-- The documents of all node types, compiled with look-ups of fields that may fail. -/
def compileQueriesChecked (schema : Schema) (declarations : List NodeDeclaration)
    (fragmentSources : List String) (aliases : Aliases) : Report (Keyed Document) := do
  let fragments ← Report.of (readFragments fragmentSources)
  let references ← Report.of (referenceFragments schema declarations)
  let usages ← typeUsagesChecked schema fragments references
  let documents ← compileEach schema declarations
    (nodeFragments schema declarations usages references fragments)
    (otherFragments schema declarations references fragments) aliases 0 declarations
  return Keyed.ofPairs documents

/-- Compiling gives documents, or fails with a fault of the configuration or with a text that cannot
be read, for every schema, all declarations, custom fragments and aliases; and it does so with
look-ups that fail for every field that the type of its place does not have, so none of them is
ever made. -/
theorem compileQueries_failsIn (sources : List String) :
    compileQueriesChecked schema declarations sources aliases
        = compileQueries schema declarations sources aliases
      ∧ ((∃ documents,
          (compileQueries schema declarations sources aliases).outcome = .ok documents)
        ∨ (∃ cause, (compileQueries schema declarations sources aliases).outcome
          = .error (.configuration cause))
        ∨ (compileQueries schema declarations sources aliases).outcome
          = .error .unreadableGraph) := by
  constructor
  · simp only [compileQueriesChecked, compileQueries, typeUsagesChecked_eq]
  have hfails : FailsIn Fault.IsCompileFault
      (compileQueries schema declarations sources aliases).outcome := by
    refine Report.failsIn_bind (readFragments_failsIn sources) fun customs _ => ?_
    refine Report.failsIn_bind (referenceFragments_failsIn schema declarations)
      fun references _ => ?_
    refine Report.failsIn_bind .ok fun usages _ => ?_
    exact Report.failsIn_bind (compileEach_failsIn schema declarations aliases _ _ 0 declarations)
      fun _ _ => .ok
  refine hfails.ok_or.imp_right ?_
  rintro ⟨fault, hfault, hcompile⟩
  cases fault with
  | configuration cause => exact .inl ⟨cause, hfault⟩
  | unreadableGraph => exact .inr hfault
  | _ => exact hcompile.elim

end Compile

end RemoteNodes
