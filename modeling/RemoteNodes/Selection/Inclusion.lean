import RemoteNodes.GraphQL.Printer
/-!
Inclusion of selections. A selection set includes another one when each selection of the other is
matched by one of its own: the order of selections and of arguments does not count.

* `Selection.includes`, `selectionsInclude`, `selectionSetIncludes`: the three levels.
-/

namespace RemoteNodes

/-- Whether two lists hold the same written forms, in any order. -/
def sameTexts (a b : List String) : Bool := a.isPerm b

/-- Whether two lists hold the same arguments, in any order. -/
def sameArguments (a b : List Argument) : Bool :=
  sameTexts (a.map Argument.text) (b.map Argument.text)

/-- Whether two lists hold the same directives, in any order. -/
def sameDirectives (a b : List Directive) : Bool :=
  sameTexts (a.map Directive.text) (b.map Directive.text)

mutual
/-- Whether the first selection asks for all that the second one asks for. -/
def Selection.includes : Selection → Selection → Bool
  | .spread fragment _, .spread fragment' _ => fragment == fragment'
  | .inline condition? directives selections, .inline condition?' directives' selections' =>
    condition? == condition?' && sameDirectives directives directives' &&
      selections'.all fun s => anyIncludes selections s
  | .field alias? name arguments directives none,
      .field alias?' name' arguments' directives' none =>
    alias? == alias?' && name == name' && sameArguments arguments arguments' &&
      sameDirectives directives directives'
  | .field alias? name arguments directives (some selections),
      .field alias?' name' arguments' directives' (some selections') =>
    alias? == alias?' && name == name' && sameArguments arguments arguments' &&
      sameDirectives directives directives' && selections'.all fun s => anyIncludes selections s
  | _, _ => false
/-- Whether one of the selections includes the given one. -/
def anyIncludes : List Selection → Selection → Bool
  | [], _ => false
  | s :: ss, t => s.includes t || anyIncludes ss t
end

/-- Whether each selection of the second list is included in one of the first. -/
def selectionsInclude (a b : List Selection) : Bool := b.all fun s => anyIncludes a s

/-- Inclusion of selection sets: a missing set includes only a missing one. -/
def selectionSetIncludes : Option (List Selection) → Option (List Selection) → Bool
  | none, none => true
  | some a, some b => selectionsInclude a b
  | _, _ => false

/-- Whether two selections include each other. -/
def Selection.same (a b : Selection) : Bool := a.includes b && b.includes a

end RemoteNodes
