import RemoteNodes.GraphQL.Document
/-!
The fragment spreads inside selections.

* `Selection.spreadNames`: the fragments that a selection spreads at any depth, in order.
* `Selection.dropSpreads?`: a selection without the spreads of some fragments.
-/

namespace RemoteNodes

mutual
/-- The fragments that a selection spreads at any depth, in order and with repetitions. -/
def Selection.spreadNames : Selection → List String
  | .field _ _ _ _ none => []
  | .field _ _ _ _ (some selections) => spreadNamesIn selections
  | .spread fragment _ => [fragment]
  | .inline _ _ selections => spreadNamesIn selections
/-- The fragments that selections spread at any depth. -/
def spreadNamesIn : List Selection → List String
  | [] => []
  | s :: ss => s.spreadNames ++ spreadNamesIn ss
end

mutual
/-- A selection without the spreads of the named fragments; nothing if it is such a spread. -/
def Selection.dropSpreads? (names : List String) : Selection → Option Selection
  | .field alias? name arguments directives none =>
    some (.field alias? name arguments directives none)
  | .field alias? name arguments directives (some selections) =>
    some (.field alias? name arguments directives (some (dropSpreadsIn names selections)))
  | .spread fragment directives =>
    if names.contains fragment then none else some (.spread fragment directives)
  | .inline condition? directives selections =>
    some (.inline condition? directives (dropSpreadsIn names selections))
/-- Selections without the spreads of the named fragments. -/
def dropSpreadsIn (names : List String) : List Selection → List Selection
  | [] => []
  | s :: ss => (s.dropSpreads? names).toList ++ dropSpreadsIn names ss
end

theorem spreadNamesIn_eq_flatMap (ss : List Selection) :
    spreadNamesIn ss = ss.flatMap (·.spreadNames) := by
  induction ss with
  | nil => rfl
  | cons s ss ih => simp [spreadNamesIn, ih]

theorem dropSpreadsIn_eq_filterMap (names : List String) (ss : List Selection) :
    dropSpreadsIn names ss = ss.filterMap (·.dropSpreads? names) := by
  induction ss with
  | nil => rfl
  | cons s ss ih => cases h : s.dropSpreads? names <;> simp [dropSpreadsIn, ih, h]

end RemoteNodes
