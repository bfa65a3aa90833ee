import Mathlib.Data.Multiset.Basic
import Mathlib.Tactic
import RemoteNodes.GraphQL.Printer
import RemoteNodes.Proofs.Schema.Conforms
import RemoteNodes.Proofs.Selection.Inclusion
/-!
What executing an operation collects. A server answers a selection set for each object, and which of
its selections count depends on the type of the object and on the variables of directives.

* `ResponseField`, `Position`: the fields of a response and where its objects are.
* `Execution`: the variables and the objects of a response; `Execution.Allowed`: whether a schema
  allows these objects.
* `Execution.Visits`, `Execution.Enters`: the selection sets that are answered for an object, and
  the fragments that are entered on the way.
* `Execution.Collects`: **the fields of an object that are collected**.
* `Execution.admits_congr`, `responseField_congr`: selections that differ in the order of directives
  and arguments count alike.
-/

namespace RemoteNodes

/-! ### Responses -/

/-- A field of a response: its key, and the name and the arguments of the field that is asked for.
The order of arguments does not count. -/
structure ResponseField where
  key : String
  name : String
  arguments : Multiset String
  deriving DecidableEq

/-- Where an object is in a response: the fields that lead to it, each with the indices in the lists
that the field's value is made of. -/
abbrev Position := List (ResponseField × List Nat)

/-- The field of the response that a selection asks for. -/
def responseField (alias? : Option String) (name : String) (arguments : List Argument) :
    ResponseField where
  key := Selection.responseKey alias? name
  name := name
  arguments := arguments.map Argument.text

/-- The arguments of a field count in any order. -/
lemma responseField_congr {alias? : Option String} {name : String}
    {arguments arguments' : List Argument} (h : sameArguments arguments arguments' = true) :
    responseField alias? name arguments = responseField alias? name arguments' := by
  have hperm : (arguments.map Argument.text : Multiset String) = arguments'.map Argument.text :=
    Multiset.coe_eq_coe.mpr (List.isPerm_iff.mp h)
  rw [responseField, responseField, hperm]

/-! ### Executions -/

/-- What decides about the answer to an operation: the values of Boolean variables, and the objects
of the response, each with its type. -/
structure Execution where
  truths : String → Bool
  /-- The type of the object at a position; nothing where there is no object. -/
  objects : Position → Option String

/-- The directive of a name with a condition. -/
def Directive.conditional (name : String) (condition : Literal) : Directive :=
  ⟨name, [⟨"if", condition⟩]⟩

namespace Execution

variable (x : Execution)

/-- The truth value of a condition. -/
def truth : Literal → Option Bool
  | .boolean value => some value
  | .variable name => some (x.truths name)
  | _ => none

/-- A directive leaves a selection out if it is written as a `skip` whose condition holds or as an
`include` whose condition does not hold. -/
def Blocks (d : Directive) : Prop :=
  ∃ condition, (d.text = (Directive.conditional "skip" condition).text
      ∧ x.truth condition = some true)
    ∨ (d.text = (Directive.conditional "include" condition).text ∧ x.truth condition = some false)

/-- Directives admit a selection if none of them leaves it out. -/
def Admits (directives : List Directive) : Prop := ∀ d ∈ directives, ¬ x.Blocks d

/-- Whether a type condition applies to the object at a position. -/
def AppliesAt (schema : Schema) (position : Position) (condition : String) : Prop :=
  ∃ object, x.objects position = some object ∧ schema.Applies condition object

/-- A schema allows objects if the root has the root type, and any other object stands under an
object with such a field, whose type it has or is possible for. -/
structure Allowed (schema : Schema) (kind : OperationKind) : Prop where
  root : x.objects [] = schema.root? kind
  inner : ∀ position field items object, x.objects (position ++ [(field, items)]) = some object →
    ∃ parent t f, x.objects position = some parent ∧ schema.type? parent = some t
      ∧ schema.fieldDefinition? t field.name = some f ∧ schema.Applies f.type.namedType object
      ∧ ∃ o, schema.type? object = some o ∧ o.isObject = true

/-- Directives in another order admit the same selections. -/
lemma admits_congr {directives directives' : List Directive}
    (h : sameDirectives directives directives' = true) (hadmits : x.Admits directives') :
    x.Admits directives := by
  intro d hd hblocks
  have htext : d.text ∈ directives'.map Directive.text :=
    (List.isPerm_iff.mp h).subset (List.mem_map_of_mem hd)
  obtain ⟨d', hd', heq⟩ := List.mem_map.mp htext
  exact hadmits d' hd' (by rwa [Blocks, heq])

lemma admits_nil : x.Admits [] := fun _ h => nomatch h

variable (schema : Schema) (document : Document) (o : Operation)

/-- The selection sets that are answered for the object at a position. -/
inductive Visits : Position → List Selection → Prop where
  | operation : Visits [] o.selections
  | field {position : Position} {ss inner : List Selection} {alias? : Option String} {name : String}
      {arguments : List Argument} {directives : List Directive} {items : List Nat} :
      Visits position ss → .field alias? name arguments directives (some inner) ∈ ss →
      x.Admits directives →
      (x.objects (position ++ [(responseField alias? name arguments, items)])).isSome = true →
      Visits (position ++ [(responseField alias? name arguments, items)]) inner
  | inline {position : Position} {ss inner : List Selection} {condition? : Option String}
      {directives : List Directive} :
      Visits position ss → .inline condition? directives inner ∈ ss → x.Admits directives →
      (∀ condition, condition? = some condition → x.AppliesAt schema position condition) →
      Visits position inner
  | spread {position : Position} {ss : List Selection} {f : Fragment}
      {directives : List Directive} :
      Visits position ss → .spread f.name directives ∈ ss → x.Admits directives →
      f ∈ document.fragments → x.AppliesAt schema position f.condition →
      Visits position f.selections

/-- A fragment of the name is entered for the object at a position. -/
def Enters (position : Position) (name : String) : Prop :=
  ∃ ss directives f, x.Visits schema document o position ss ∧ .spread name directives ∈ ss
    ∧ x.Admits directives ∧ f ∈ document.fragments ∧ f.name = name
    ∧ x.AppliesAt schema position f.condition

/-- A field of the object at a position is collected. -/
def Collects (position : Position) (field : ResponseField) : Prop :=
  ∃ ss alias? name arguments directives selections?, x.Visits schema document o position ss
    ∧ .field alias? name arguments directives selections? ∈ ss ∧ x.Admits directives
    ∧ responseField alias? name arguments = field

end Execution

end RemoteNodes
