import RemoteNodes.Fault
import RemoteNodes.Schema.Basic
/-!
Narrowing of selections to what the schema defines.

* `narrowAll`: the selections without undefined fields, and without what they leave empty.
* `narrowWarnings`: one warning for each undefined field, unless it stands inside another one.
* `sizeAll_narrowAll_le`: narrowing never adds anything.

Fields whose name begins with two underscores count as defined and are kept with all they hold.
-/

namespace RemoteNodes

/-- The warning about a field that a type does not define. -/
def NamedType.undefinedField (t : NamedType) (name : String) : Warning :=
  .undefinedField name t.name t.isObject

/-- Whether a type has a field of this name. -/
def NamedType.defines (t : NamedType) (name : String) : Bool :=
  isMetaName name || (t.memberType? name).isSome

/-- Whether a selection is no undefined field. -/
def NamedType.accepts (t : NamedType) : Selection → Bool
  | .field _ name .. => t.defines name
  | _ => true

namespace Schema

/-- The type inside the wrappers of a reference; a name that the schema does not know counts as a
scalar. -/
def resolve (schema : Schema) (type : TypeRef) : NamedType :=
  (schema.namedType? type).getD ⟨type.namedType, .scalar⟩

/-- The type of the selections inside a field. -/
def memberResult (schema : Schema) (t : NamedType) (name : String) : NamedType :=
  match t.memberType? name with
  | some type => schema.resolve type
  | none => ⟨name, .scalar⟩

/-- The type of the selections inside an inline fragment: the one of its condition if it is known,
or the surrounding one. -/
def conditionType (schema : Schema) (t : NamedType) : Option String → NamedType
  | some condition => (schema.type? condition).getD t
  | none => t

end Schema

mutual
/-- A selection on a type without undefined fields; nothing if no selection is left inside it. -/
def Selection.narrow? (schema : Schema) (t : NamedType) : Selection → Option Selection
  | .field alias? name arguments directives none =>
    some (.field alias? name arguments directives none)
  | .field alias? name arguments directives (some selections) =>
    if isMetaName name then some (.field alias? name arguments directives (some selections))
    else
      match narrowAll schema (schema.memberResult t name) selections with
      | [] => none
      | narrowed => some (.field alias? name arguments directives (some narrowed))
  | .spread fragment directives => some (.spread fragment directives)
  | .inline condition? directives selections =>
    match narrowAll schema (schema.conditionType t condition?) selections with
    | [] => none
    | narrowed => some (.inline condition? directives narrowed)
/-- Selections on a type without undefined fields. -/
def narrowAll (schema : Schema) (t : NamedType) : List Selection → List Selection
  | [] => []
  | s :: ss =>
    if t.accepts s then (s.narrow? schema t).toList ++ narrowAll schema t ss
    else narrowAll schema t ss
end

mutual
/-- The warnings about undefined fields inside a selection. -/
def Selection.narrowWarnings (schema : Schema) (t : NamedType) : Selection → List Warning
  | .field _ _ _ _ none => []
  | .field _ name _ _ (some selections) =>
    if isMetaName name then [] else narrowWarnings schema (schema.memberResult t name) selections
  | .spread .. => []
  | .inline condition? _ selections =>
    narrowWarnings schema (schema.conditionType t condition?) selections
/-- The warnings about undefined fields among selections and inside them. -/
def narrowWarnings (schema : Schema) (t : NamedType) : List Selection → List Warning
  | [] => []
  | s :: ss =>
    (match s with
      | .field _ name _ _ _ => if t.defines name then [] else [t.undefinedField name]
      | _ => []) ++
      (if t.accepts s then s.narrowWarnings schema t else []) ++ narrowWarnings schema t ss
end

/-- The size of what is left of a selection. -/
def sizeOf? (s? : Option Selection) : Nat := Selection.sizeAll s?.toList

theorem sizeAll_append (a b : List Selection) :
    Selection.sizeAll (a ++ b) = Selection.sizeAll a + Selection.sizeAll b := by
  induction a with
  | nil => simp [Selection.sizeAll]
  | cons s ss ih => simp [Selection.sizeAll, ih, Nat.add_assoc]

mutual
theorem sizeOf_narrow?_le (schema : Schema) (t : NamedType) (s : Selection) :
    sizeOf? (s.narrow? schema t) ≤ s.size := by
  match s with
  | .field _ _ _ _ none => simp [Selection.narrow?, sizeOf?, Selection.sizeAll, Selection.size]
  | .field _ name _ _ (some ss) =>
    have ih := sizeAll_narrowAll_le schema (schema.memberResult t name) ss
    simp only [Selection.narrow?]
    split
    · simp [sizeOf?, Selection.sizeAll, Selection.size]
    · split
      · simp [sizeOf?, Selection.sizeAll]
      · simp [sizeOf?, Selection.sizeAll, Selection.size]; omega
  | .spread .. => simp [Selection.narrow?, sizeOf?, Selection.sizeAll, Selection.size]
  | .inline condition? _ ss =>
    have ih := sizeAll_narrowAll_le schema (schema.conditionType t condition?) ss
    simp only [Selection.narrow?]
    split
    · simp [sizeOf?, Selection.sizeAll]
    · simp [sizeOf?, Selection.sizeAll, Selection.size]; omega
/-- Narrowing never adds a selection. -/
theorem sizeAll_narrowAll_le (schema : Schema) (t : NamedType) (ss : List Selection) :
    Selection.sizeAll (narrowAll schema t ss) ≤ Selection.sizeAll ss := by
  match ss with
  | [] => simp [narrowAll]
  | s :: ss =>
    have hs := sizeOf_narrow?_le schema t s
    have hss := sizeAll_narrowAll_le schema t ss
    simp only [narrowAll]
    split
    · simp only [sizeAll_append, Selection.sizeAll]
      simp only [sizeOf?] at hs
      omega
    · simp only [Selection.sizeAll]; omega
end

end RemoteNodes
