import RemoteNodes.Schema.Meta
/-!
The rules that definitions have to keep before they can make up a schema: names are given once,
whatever is named is declared, additions fit what they add to, and directives stand where they may
with the arguments that they take.

* `Document.isValid`: whether a document keeps the rules.
* `Literal.hasDistinctKeys`: no object inside a literal gives a field twice.
* `DirectiveSite.isValid`: the rules for the directives at one place.
-/

namespace RemoteNodes

/-! ### Values -/

mutual
/-- Whether no object inside a literal gives a field twice. -/
def Literal.hasDistinctKeys : Literal → Bool
  | .list items => distinctKeysInItems items
  | .object fields => decide (fields.map (·.1)).Nodup && distinctKeysInFields fields
  | _ => true
/-- Whether the items keep the rule. -/
def distinctKeysInItems : List Literal → Bool
  | [] => true
  | x :: xs => x.hasDistinctKeys && distinctKeysInItems xs
/-- Whether the values of fields keep the rule. -/
def distinctKeysInFields : List (String × Literal) → Bool
  | [] => true
  | (_, x) :: xs => x.hasDistinctKeys && distinctKeysInFields xs
end

/-- Whether arguments are given once and have valid values. -/
def validArguments (arguments : List Argument) : Bool :=
  decide (arguments.map (·.name)).Nodup && arguments.all (·.value.hasDistinctKeys)

/-- Whether a default, if there is one, has a valid value. -/
def validDefault (default? : Option Literal) : Bool := default?.all (·.hasDistinctKeys)

/-! ### Directives -/

/-- A place of a kind with the directives that stand there. -/
structure DirectiveSite where
  location : String
  directives : List Directive
  deriving Repr

/-- Whether a directive may stand at places of a kind and is given the arguments that it takes. -/
def DirectiveDefinition.allows (definition : DirectiveDefinition) (location : String)
    (d : Directive) : Bool :=
  let given := d.arguments.map (·.name)
  definition.locations.contains location &&
    given.all (fun name => definition.arguments.any (·.name == name)) &&
    definition.arguments.all fun a =>
      !a.type.isNonNull || a.default?.isSome || given.contains a.name

/-- Whether every directive at a place is declared and allowed there. -/
def DirectiveSite.isValid (declared : List DirectiveDefinition) (site : DirectiveSite) : Bool :=
  site.directives.all fun d =>
    (declared.find? (·.name == d.name)).any (·.allows site.location d) &&
      validArguments d.arguments

/-- Whether no directive is repeated that may not be. -/
def withoutRepetition (declared : List DirectiveDefinition) (directives : List Directive) : Bool :=
  decide ((directives.map (·.name)).filter fun name =>
    (declared.find? (·.name == name)).any (!·.isRepeatable)).Nodup

/-! ### Operations and fragments -/

mutual
/-- The places for directives in a selection. -/
def Selection.sites : Selection → List DirectiveSite
  | .field _ _ _ directives none => [⟨"FIELD", directives⟩]
  | .field _ _ _ directives (some selections) => ⟨"FIELD", directives⟩ :: sitesIn selections
  | .spread _ directives => [⟨"FRAGMENT_SPREAD", directives⟩]
  | .inline _ directives selections => ⟨"INLINE_FRAGMENT", directives⟩ :: sitesIn selections
/-- The places for directives in selections. -/
def sitesIn : List Selection → List DirectiveSite
  | [] => []
  | s :: ss => s.sites ++ sitesIn ss
end

mutual
/-- The conditions in a selection. -/
def Selection.conditions : Selection → List String
  | .field _ _ _ _ none => []
  | .field _ _ _ _ (some selections) => conditionsIn selections
  | .spread .. => []
  | .inline condition? _ selections => condition?.toList ++ conditionsIn selections
/-- The conditions in selections. -/
def conditionsIn : List Selection → List String
  | [] => []
  | s :: ss => s.conditions ++ conditionsIn ss
end

mutual
/-- Whether the fields in a selection have valid arguments. -/
def Selection.hasValidArguments : Selection → Bool
  | .field _ _ arguments _ none => validArguments arguments
  | .field _ _ arguments _ (some selections) => validArguments arguments && validIn selections
  | .spread .. => true
  | .inline _ _ selections => validIn selections
/-- Whether the fields in selections have valid arguments. -/
def validIn : List Selection → Bool
  | [] => true
  | s :: ss => s.hasValidArguments && validIn ss
end

/-- The kind of place that an operation is for its directives. -/
def OperationKind.location : OperationKind → String
  | query => "QUERY"
  | mutation => "MUTATION"
  | subscription => "SUBSCRIPTION"

/-! ### Type definitions -/

namespace TypeBody

/-- The kind of place that a type is for its directives. -/
def location : TypeBody → String
  | scalar => "SCALAR"
  | object .. => "OBJECT"
  | interface .. => "INTERFACE"
  | union _ => "UNION"
  | enum _ => "ENUM"
  | input _ => "INPUT_OBJECT"

/-- The names of the fields or values of a type. -/
def memberNames : TypeBody → List String
  | object _ fields | interface _ fields => fields.map (·.name)
  | enum values => values.map (·.name)
  | input fields => fields.map (·.name)
  | _ => []

/-- The arguments in a type, and the fields of an input object. -/
def inputs : TypeBody → List InputDefinition
  | object _ fields | interface _ fields => fields.flatMap (·.arguments)
  | input fields => fields
  | _ => []

/-- Whether no field declares an argument twice. -/
def hasDistinctArguments : TypeBody → Bool
  | object _ fields | interface _ fields =>
    fields.all fun f => decide (f.arguments.map (·.name)).Nodup
  | _ => true

/-- The types that a type names. -/
def namedTypes : TypeBody → List String
  | object interfaces fields | interface interfaces fields =>
    interfaces ++ fields.flatMap fun f =>
      f.arguments.map (·.type.namedType) ++ [f.type.namedType]
  | union members => members
  | input fields => fields.map (·.type.namedType)
  | _ => []

end TypeBody

/-- The places for directives inside a type definition. The fields that are added to an input object
count as arguments. -/
def TypeDefinition.innerSites (d : TypeDefinition) : List DirectiveSite :=
  match d.body with
  | .object _ fields | .interface _ fields =>
    fields.flatMap fun f =>
      ⟨"FIELD_DEFINITION", f.directives⟩ ::
        f.arguments.map fun a => ⟨"ARGUMENT_DEFINITION", a.directives⟩
  | .enum values => values.map fun v => ⟨"ENUM_VALUE", v.directives⟩
  | .input fields =>
    let location := if d.isExtension then "ARGUMENT_DEFINITION" else "INPUT_FIELD_DEFINITION"
    fields.map fun f => ⟨location, f.directives⟩
  | _ => []

/-! ### Definitions -/

namespace Definition

/-- The place that a definition itself is for directives. -/
def ownSite : Definition → DirectiveSite
  | operation o => ⟨o.kind.location, o.directives⟩
  | fragment f => ⟨"FRAGMENT_DEFINITION", f.directives⟩
  | schema d => ⟨"SCHEMA", d.directives⟩
  | type d => ⟨d.body.location, d.directives⟩
  | directive _ => ⟨"DIRECTIVE_DEFINITION", []⟩

/-- The places for directives inside a definition. -/
def innerSites : Definition → List DirectiveSite
  | operation o =>
    o.variableDefinitions.map (fun v => ⟨"VARIABLE_DEFINITION", v.directives⟩) ++
      sitesIn o.selections
  | fragment f => sitesIn f.selections
  | schema _ => []
  | type d => d.innerSites
  | directive d => d.arguments.map fun a => ⟨"ARGUMENT_DEFINITION", a.directives⟩

/-- Whether the values and arguments in a definition are valid, directives apart. -/
def hasValidValues : Definition → Bool
  | operation o =>
    o.variableDefinitions.all (fun v => validDefault v.default?) && validIn o.selections
  | fragment f => validIn f.selections
  | schema _ => true
  | type d => d.body.hasDistinctArguments && d.body.inputs.all fun i => validDefault i.default?
  | directive d =>
    decide (d.arguments.map (·.name)).Nodup && d.arguments.all fun a => validDefault a.default?

/-- Whether the types that a definition names are declared. Only definitions of a schema can count
on the types of the language. -/
def namesKnownTypes (declared : List String) : Definition → Bool
  | operation o =>
    o.variableDefinitions.all (fun v => declared.contains v.type.namedType) &&
      (conditionsIn o.selections).all declared.contains
  | fragment f => (f.condition :: conditionsIn f.selections).all declared.contains
  | schema d => d.roots.all fun r => isKnown r.2
  | type d => d.body.namedTypes.all isKnown
  | directive d => d.arguments.all fun a => isKnown a.type.namedType
where
  /-- Whether a name stands for a type in definitions of a schema. -/
  isKnown (name : String) : Bool := declared.contains name || Schema.isReserved name

end Definition

namespace Document

/-- The names of the types that a document declares. -/
def typeNames (document : Document) : List String :=
  (document.typeDefinitions.filter (!·.isExtension)).map (·.name)

/-- The directives that a document can use: its own and those of the language. -/
def knownDirectives (document : Document) : List DirectiveDefinition :=
  document.directiveDefinitions ++ Schema.builtinDirectives

/-- Whether an addition has something of its own kind to add to. -/
def canExtend (document : Document) (addition : TypeDefinition) : Bool :=
  document.typeDefinitions.any fun d =>
    !d.isExtension && d.name == addition.name && d.body.location == addition.body.location

/-- Whether a type and its additions together declare each member once and repeat no directive. -/
def hasDistinctParts (document : Document) (name : String) : Bool :=
  let parts := document.typeDefinitions.filter (·.name == name)
  decide (parts.flatMap (·.body.memberNames)).Nodup &&
    withoutRepetition document.knownDirectives (parts.flatMap (·.directives))

/-- Whether the directives of a definition are valid where they stand. Those of a type or schema
are repeated by what adds to it, and are looked at together elsewhere. -/
def validSites (document : Document) (d : Definition) : Bool :=
  let declared := document.knownDirectives
  let alone := match d with
    | .type _ | .schema _ => d.innerSites
    | _ => d.ownSite :: d.innerSites
  (d.ownSite :: d.innerSites).all (·.isValid declared) &&
    alone.all fun site => withoutRepetition declared site.directives

/-- Whether a document keeps the rules for definitions. -/
def isValid (document : Document) : Bool :=
  let schemas := document.schemaDefinitions
  decide document.typeNames.Nodup &&
    decide (document.directiveDefinitions.map (·.name)).Nodup &&
    (schemas.filter (!·.isExtension)).length ≤ 1 &&
    decide ((schemas.flatMap (·.roots)).map (·.1.text)).Nodup &&
    withoutRepetition document.knownDirectives (schemas.flatMap (·.directives)) &&
    (document.typeDefinitions.filter (·.isExtension)).all document.canExtend &&
    document.typeNames.all document.hasDistinctParts &&
    document.all fun d =>
      d.namesKnownTypes document.typeNames && d.hasValidValues && document.validSites d

end Document

end RemoteNodes
