import RemoteNodes.Fault
import RemoteNodes.GraphQL.Document
/-!
Fields inside operations. The path of a field is the list of response keys from the operation down
to it, such as `allFoo` or `node`, `children`.

* `argumentVariables`: the variables in arguments, also inside lists and objects.
* `Document.fieldPath`: the path of the first field that passes a test. Spreads count as the
  selections of their fragments.
* `Document.nodePath`: the path of the first field that takes a variable.
-/

namespace RemoteNodes

mutual
/-- The variables in a literal. -/
def Literal.variableNames : Literal → List String
  | .variable name => [name]
  | .list items => itemVariables items
  | .object fields => fieldVariables fields
  | _ => []
/-- The variables in the items of a list. -/
def itemVariables : List Literal → List String
  | [] => []
  | x :: xs => x.variableNames ++ itemVariables xs
/-- The variables in the fields of an object. -/
def fieldVariables : List (String × Literal) → List String
  | [] => []
  | (_, x) :: xs => x.variableNames ++ fieldVariables xs
end

/-- The variables in arguments, in order and as often as they stand there. -/
def argumentVariables (arguments : List Argument) : List String :=
  arguments.flatMap (·.value.variableNames)

/-- The variables in the arguments of a field; other selections have none. -/
def Selection.argumentVariables : Selection → List String
  | .field _ _ arguments _ _ => RemoteNodes.argumentVariables arguments
  | _ => []

/-- A path may have at most one key more than this. -/
def maxNesting : Nat := 10

/-- The last fragment of a name. -/
def lastFragment? (fragments : List Fragment) (name : String) : Option Fragment :=
  fragments.reverse.find? (·.name == name)

/-- What a search needs to know: the fragments and the test on fields. -/
structure FieldSearch where
  fragments : List Fragment
  test : Selection → Bool

namespace FieldSearch

mutual
/-- The path of the first field in a selection that passes the test. `path` leads to the
selection, and `closed` names the fragments that may still be opened before the next field: a
fragment that spreads itself with no field in between adds nothing. -/
def inSelection (search : FieldSearch) (path closed : List String) :
    Selection → Except ConfigurationFault (Option (List String))
  | .field alias? name arguments directives none =>
    if maxNesting < path.length then .error (.tooDeep path)
    else if search.test (.field alias? name arguments directives none) then
      .ok (some (path ++ [Selection.responseKey alias? name]))
    else .ok none
  | .field alias? name arguments directives (some selections) =>
    if _h : maxNesting < path.length then .error (.tooDeep path)
    else if search.test (.field alias? name arguments directives (some selections)) then
      .ok (some (path ++ [Selection.responseKey alias? name]))
    else inSelections search (path ++ [Selection.responseKey alias? name])
      (search.fragments.map (·.name)) selections
  | .inline _ _ selections => inSelections search path closed selections
  | .spread name _ =>
    match lastFragment? search.fragments name with
    | none => .error (.noFragment name)
    | some f =>
      if _h : name ∈ closed then inSelections search path (closed.erase name) f.selections
      else .ok none
  termination_by s => (maxNesting + 1 - path.length, closed.length, 2 * s.size)
  decreasing_by
    · apply Prod.Lex.left; simp only [List.length_append, List.length_singleton]; omega
    · apply Prod.Lex.right; apply Prod.Lex.right; simp only [Selection.size]; omega
    · apply Prod.Lex.right; apply Prod.Lex.left
      have := List.length_pos_of_mem _h
      rw [List.length_erase_of_mem _h]; omega
/-- The path of the first field in selections that passes the test. -/
def inSelections (search : FieldSearch) (path closed : List String) :
    List Selection → Except ConfigurationFault (Option (List String))
  | [] => .ok none
  | s :: ss =>
    match inSelection search path closed s with
    | .ok none => inSelections search path closed ss
    | found => found
  termination_by ss => (maxNesting + 1 - path.length, closed.length, 2 * Selection.sizeAll ss + 1)
  decreasing_by
    all_goals apply Prod.Lex.right; apply Prod.Lex.right
    · simp only [Selection.sizeAll]; omega
    · simp only [Selection.sizeAll]; have := s.size_pos; omega
end

end FieldSearch

/-- The operation of a name. -/
def Document.operation (document : Document) (name : String) :
    Except ConfigurationFault Operation :=
  match document.operations.find? (·.name? == some name) with
  | some o => .ok o
  | none => .error (.noOperation name)

namespace Document

/-- The variables that an operation declares. -/
def declaredVariables (document : Document) (operation : String) :
    Except ConfigurationFault (List String) := do
  return (← document.operation operation).variableDefinitions.map (·.name)

/-- The path of the first field of an operation that passes the test, in pre-order; empty if no
field does. -/
def fieldPath (document : Document) (operation : String) (test : Selection → Bool) :
    Except ConfigurationFault (List String) := do
  let o ← document.operation operation
  let search : FieldSearch := ⟨document.fragments, test⟩
  return (← search.inSelections [] (document.fragments.map (·.name)) o.selections).getD []

/-- The path of the first field that takes a variable. -/
def nodePath (document : Document) (operation : String) :
    Except ConfigurationFault (List String) :=
  document.fieldPath operation fun s => !s.argumentVariables.isEmpty

/-- The names of the operations that begin with a mark. -/
def operationsMarked (document : Document) (mark : String) : List String :=
  (document.operations.filterMap (·.name?)).filter (·.startsWith mark)

/-- The operations that list nodes. -/
def listOperations (document : Document) : List String := document.operationsMarked "LIST_"

/-- The operations that fetch one node again. -/
def nodeOperations (document : Document) : List String := document.operationsMarked "NODE_"

/-- The operations that fetch a paginated field of a node. -/
def fieldOperations (document : Document) : List String := document.operationsMarked "PAGINATE_"

end Document

end RemoteNodes
