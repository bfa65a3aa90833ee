import RemoteNodes.GraphQL.Document
import RemoteNodes.GraphQL.Token
/-!
Reading GraphQL documents from their tokens.

* `Document.parse?`: the document that a text writes.
* `Literal.parse?`: the literal that a text writes.

A reader consumes tokens from the front and fails when they do not fit. Readers of repeated parts
take fuel; the number of tokens is enough, because every step consumes one. Readers of nested parts
take the room that is left for further nesting, and fail when a text is nested too deeply.
-/

namespace RemoteNodes

/-- Consumes tokens from the front of a list, or fails. -/
abbrev Reader (α : Type) := StateT (List Token) Option α

namespace Reader

variable {α : Type}

/-- The next token, which is not consumed. -/
def peek? : Reader (Option Token) := do return (← get).head?

/-- Any token. -/
def next : Reader Token := do
  match ← get with
  | [] => failure
  | t :: ts => set ts; return t

/-- This token. -/
def expect (token : Token) : Reader Unit := do
  if (← next) != token then failure

/-- Consumes this token if it comes next and tells whether it did. -/
def take (token : Token) : Reader Bool := do
  match ← get with
  | [] => return false
  | t :: ts => if t == token then do set ts; return true else return false

/-- A name. -/
def name : Reader String := do
  match ← next with
  | .name text => return text
  | _ => failure

/-- This word. -/
def keyword (word : String) : Reader Unit := expect (.name word)

/-- Consumes this word if it comes next and tells whether it did. -/
def takeKeyword (word : String) : Reader Bool := take (.name word)

/-- Reads items up to the closing token. -/
def upTo (close : Token) (item : Reader α) : (fuel : Nat) → Reader (List α)
  | 0 => failure
  | fuel + 1 => do
    if ← take close then return []
    let first ← item
    let rest ← upTo close item fuel
    return first :: rest

/-- One item at least between the two tokens. -/
def many (opening closing : Token) (fuel : Nat) (item : Reader α) : Reader (List α) := do
  expect opening
  let first ← item
  let rest ← upTo closing item fuel
  return first :: rest

/-- One item at least between the two tokens, or nothing at all. -/
def optionalMany (opening closing : Token) (fuel : Nat) (item : Reader α) : Reader (List α) := do
  if (← peek?) == some opening then many opening closing fuel item else return []

/-- Items with a separator between them. -/
def separated (separator : Token) (item : Reader α) : (fuel : Nat) → Reader (List α)
  | 0 => failure
  | fuel + 1 => do
    let first ← item
    if ← take separator then
      let rest ← separated separator item fuel
      return first :: rest
    else return [first]

/-- Items with a separator between them and possibly one in front. -/
def delimited (separator : Token) (fuel : Nat) (item : Reader α) : Reader (List α) := do
  let _ ← take separator
  separated separator item fuel

/-! ### Literals and types -/

/-- The mark that opens a block. -/
def openBrace : Token := .mark '\x7b'

/-- The mark that closes a block. -/
def closeBrace : Token := .mark '\x7d'

/-- The mark that opens arguments. -/
def openParen : Token := .mark '('

/-- The mark that closes arguments. -/
def closeParen : Token := .mark ')'

/-- How deeply selection sets, lists and objects may be nested in each other, and lists in a type.
Nothing that is modelled here sets this number: it stands for the depth at which the parser of
GraphQL that the program relies on refuses a text as wrongly written. -/
def nestingLimit : Nat := 200

/-- A literal; a constant one holds no variables. `inner?` reads the literals inside it, if there is
room for them. -/
def literalOver (isConstant : Bool) (fuel : Nat) (inner? : Option (Reader Literal)) :
    Reader Literal := do
  match ← next with
  | .int text => return .int text
  | .float text => return .float text
  | .string value isBlock => return .string value isBlock
  | .name "true" => return .boolean true
  | .name "false" => return .boolean false
  | .name "null" => return .null
  | .name text => return .enum text
  | .mark '$' => if isConstant then failure else return .variable (← name)
  | .mark '[' =>
    match inner? with
    | none => failure
    | some inner => return .list (← upTo (.mark ']') inner fuel)
  | .mark '\x7b' =>
    match inner? with
    | none => failure
    | some inner =>
      return .object (← upTo closeBrace (do
        let key ← name
        expect (.mark ':')
        return (key, ← inner)) fuel)
  | _ => failure

/-- A literal; a constant one holds no variables. -/
def literal (isConstant : Bool) (fuel : Nat) : (room : Nat) → Reader Literal
  | 0 => literalOver isConstant fuel none
  | room + 1 => literalOver isConstant fuel (some (literal isConstant fuel room))

/-- A constant. -/
def constant (fuel : Nat) : Reader Literal := literal true fuel nestingLimit

/-- A type reference. -/
def typeWithin : (room : Nat) → Reader TypeRef := fun room => do
  let inner : TypeRef ← (do
    if ← take (.mark '[') then
      match room with
      | 0 => failure
      | room + 1 =>
        let item ← typeWithin room
        expect (.mark ']')
        return .list item
    else return .named (← name))
  if ← take (.mark '!') then return .nonNull inner else return inner

/-- A type reference. -/
def type : Reader TypeRef := typeWithin nestingLimit

/-- An argument. -/
def argument (isConstant : Bool) (fuel room : Nat) : Reader Argument := do
  let name ← name
  expect (.mark ':')
  return ⟨name, ← literal isConstant fuel room⟩

/-- Arguments in parentheses, if there are any. -/
def arguments (isConstant : Bool) (fuel room : Nat) : Reader (List Argument) :=
  optionalMany openParen closeParen fuel (argument isConstant fuel room)

/-- Directives, as many as there are. -/
def directivesWithin (isConstant : Bool) (whole room : Nat) : (fuel : Nat) → Reader (List Directive)
  | 0 => failure
  | fuel + 1 => do
    if ← take (.mark '@') then
      let name ← name
      let arguments ← arguments isConstant whole room
      let rest ← directivesWithin isConstant whole room fuel
      return ⟨name, arguments⟩ :: rest
    else return []

/-- Directives, as many as there are. -/
def directives (fuel room : Nat) : Reader (List Directive) := directivesWithin false fuel room fuel

/-- Directives whose arguments are constants. -/
def constantDirectives (fuel : Nat) : Reader (List Directive) :=
  directivesWithin true fuel nestingLimit fuel

/-! ### Operations and fragments -/

/-- One selection. `set` reads the selections inside it. -/
def selectionOver (fuel room : Nat) (set : Reader (List Selection)) : Reader Selection := do
  if ← take .ellipsis then
    if ← takeKeyword "on" then
      let condition ← name
      let directives ← directives fuel room
      return .inline (some condition) directives (← set)
    else
      match ← peek? with
      | some (.name fragment) =>
        let _ ← next
        return .spread fragment (← directives fuel room)
      | _ =>
        let directives ← directives fuel room
        return .inline none directives (← set)
  else
    let first ← name
    let (alias?, name) ← (do
      if ← take (.mark ':') then return (some first, ← name) else return (none, first))
    let arguments ← arguments false fuel room
    let directives ← directives fuel room
    let selections? ← (do
      if (← peek?) == some openBrace then return some (← set) else return none)
    return .field alias? name arguments directives selections?

/-- Selections in braces. -/
def selectionSet (fuel : Nat) : (room : Nat) → Reader (List Selection)
  | 0 => failure
  | room + 1 => many openBrace closeBrace fuel (selectionOver fuel room (selectionSet fuel room))

/-- A description, if there is one. -/
def description? : Reader (Option Description) := do
  match ← peek? with
  | some (.string value isBlock) => let _ ← next; return some ⟨value, isBlock⟩
  | _ => return none

/-- A default after an equals sign, if there is one. -/
def default? (fuel : Nat) : Reader (Option Literal) := do
  if ← take (.mark '=') then return some (← constant fuel) else return none

/-- The declaration of a variable. -/
def variableDefinition (fuel : Nat) : Reader VariableDefinition := do
  let description? ← description?
  expect (.mark '$')
  let name ← name
  expect (.mark ':')
  let type ← type
  let default? ← default? fuel
  return ⟨description?, name, type, default?, ← constantDirectives fuel⟩

/-- The keyword of an operation. -/
def operationKind : Reader OperationKind := do
  match ← name with
  | "query" => return .query
  | "mutation" => return .mutation
  | "subscription" => return .subscription
  | _ => failure

/-- The outermost selection set of a definition. -/
def outerSelectionSet (fuel : Nat) : Reader (List Selection) := selectionSet fuel nestingLimit

/-- A query that is nothing but its selection set. -/
def bareQuery (fuel : Nat) : Reader Operation := do
  return ⟨none, .query, none, [], [], ← outerSelectionSet fuel⟩

/-- An operation after its description. -/
def operation (fuel : Nat) (description? : Option Description) : Reader Operation := do
  let kind ← operationKind
  let name? ← (do
    match ← peek? with
    | some (.name text) => let _ ← next; return some text
    | _ => return none)
  let definitions ← optionalMany openParen closeParen fuel (variableDefinition fuel)
  let directives ← directives fuel nestingLimit
  return ⟨description?, kind, name?, definitions, directives, ← outerSelectionSet fuel⟩

/-- A fragment after its description. Its name is not the word before its condition. -/
def fragment (fuel : Nat) (description? : Option Description) : Reader Fragment := do
  keyword "fragment"
  let name ← name
  if name == "on" then failure
  keyword "on"
  let condition ← Reader.name
  let directives ← directives fuel nestingLimit
  return ⟨description?, name, condition, directives, ← outerSelectionSet fuel⟩

/-! ### Type definitions -/

/-- A declared argument or input field. -/
def inputDefinition (fuel : Nat) : Reader InputDefinition := do
  let description? ← description?
  let name ← name
  expect (.mark ':')
  let type ← type
  let default? ← default? fuel
  return ⟨description?, name, type, default?, ← constantDirectives fuel⟩

/-- A declared field. -/
def fieldDefinition (fuel : Nat) : Reader FieldDefinition := do
  let description? ← description?
  let name ← name
  let arguments ← optionalMany openParen closeParen fuel (inputDefinition fuel)
  expect (.mark ':')
  let type ← type
  return ⟨description?, name, arguments, type, ← constantDirectives fuel⟩

/-- Booleans and null cannot name a value of an enumeration. -/
def enumValueDefinition (fuel : Nat) : Reader EnumValueDefinition := do
  let description? ← description?
  let name ← name
  if name == "true" || name == "false" || name == "null" then failure
  return ⟨description?, name, ← constantDirectives fuel⟩

/-- The interfaces that a type implements. -/
def interfaces (fuel : Nat) : Reader (List String) := do
  if ← takeKeyword "implements" then delimited (.mark '&') fuel name else return []

/-- The root types in a definition of the schema. -/
def roots (fuel : Nat) : Reader (List (OperationKind × String)) :=
  optionalMany openBrace closeBrace fuel (do
    let kind ← operationKind
    expect (.mark ':')
    return (kind, ← name))

/-- What follows the keyword of a type definition: its name, directives and body. -/
def typeDefinition (fuel : Nat) (isExtension : Bool) (description? : Option Description)
    (word : String) : Reader TypeDefinition := do
  let name ← name
  let constants := constantDirectives fuel
  let fields := optionalMany openBrace closeBrace fuel (fieldDefinition fuel)
  let (directives, body) : List Directive × TypeBody ← (do
    match word with
    | "scalar" => return (← constants, .scalar)
    | "type" =>
      let interfaces ← interfaces fuel
      let directives ← constants
      return (directives, .object interfaces (← fields))
    | "interface" =>
      let interfaces ← interfaces fuel
      let directives ← constants
      return (directives, .interface interfaces (← fields))
    | "union" =>
      let directives ← constants
      if ← take (.mark '=') then
        return (directives, .union (← delimited (.mark '|') fuel Reader.name))
      else return (directives, .union [])
    | "enum" =>
      let directives ← constants
      return (directives, .enum (← optionalMany openBrace closeBrace fuel
        (enumValueDefinition fuel)))
    | "input" =>
      let directives ← constants
      return (directives, .input (← optionalMany openBrace closeBrace fuel
        (inputDefinition fuel)))
    | _ => failure)
  return ⟨isExtension, description?, name, directives, body⟩

/-- Whether a type definition adds anything besides its name. -/
def saysSomething (d : TypeDefinition) : Bool :=
  !d.directives.isEmpty ||
    match d.body with
    | .scalar => false
    | .object interfaces fields => !interfaces.isEmpty || !fields.isEmpty
    | .interface interfaces fields => !interfaces.isEmpty || !fields.isEmpty
    | .union members => !members.isEmpty
    | .enum values => !values.isEmpty
    | .input fields => !fields.isEmpty

/-- A place where a directive may stand. -/
def directiveLocation : Reader String := do
  let location ← name
  if directiveLocations.contains location then return location else failure

/-- A directive, after its keyword. -/
def directiveDefinition (fuel : Nat) (description? : Option Description) :
    Reader DirectiveDefinition := do
  expect (.mark '@')
  let name ← name
  let arguments ← optionalMany openParen closeParen fuel (inputDefinition fuel)
  let isRepeatable ← takeKeyword "repeatable"
  keyword "on"
  return ⟨description?, name, arguments, isRepeatable,
    ← delimited (.mark '|') fuel directiveLocation⟩

/-- An addition to a definition: it has no description and adds something. -/
def extension (fuel : Nat) : Reader Definition := do
  keyword "extend"
  let word ← name
  if word == "schema" then
    let directives ← constantDirectives fuel
    let roots ← roots fuel
    if directives.isEmpty && roots.isEmpty then failure
    return .schema ⟨true, none, directives, roots⟩
  else
    let definition ← typeDefinition fuel true none word
    if saysSomething definition then return .type definition else failure

/-- A definition of the schema, a type or a directive, after its description. -/
def systemDefinition (fuel : Nat) (description? : Option Description) : Reader Definition := do
  let word ← name
  if word == "schema" then
    let directives ← constantDirectives fuel
    let roots ← roots fuel
    if roots.isEmpty then failure
    return .schema ⟨false, description?, directives, roots⟩
  else if word == "directive" then return .directive (← directiveDefinition fuel description?)
  else return .type (← typeDefinition fuel false description? word)

/-- A definition that may have a description. -/
def describable (fuel : Nat) (description? : Option Description) : Reader Definition := do
  match ← peek? with
  | some (.name "query") | some (.name "mutation") | some (.name "subscription") =>
    return .operation (← operation fuel description?)
  | some (.name "fragment") => return .fragment (← fragment fuel description?)
  | _ => systemDefinition fuel description?

/-- A definition of any kind. -/
def definition (fuel : Nat) : Reader Definition := do
  match ← peek? with
  | some (.mark '\x7b') => return .operation (← bareQuery fuel)
  | some (.name "extend") => extension fuel
  | _ => describable fuel (← description?)

/-- Definitions up to the end of the text. -/
def definitions (whole : Nat) : (fuel : Nat) → Reader (List Definition)
  | 0 => failure
  | fuel + 1 => do
    let first ← definition whole
    if (← get).isEmpty then return [first]
    let rest ← definitions whole fuel
    return first :: rest

end Reader

/-- The document that a text writes: one definition at least. -/
def Document.parse? (text : String) : Option Document := do
  let tokens ← Token.scan? text
  let fuel := tokens.length + 1
  let (definitions, _) ← (Reader.definitions fuel fuel).run tokens
  return definitions

/-- The value that a text writes. -/
def Literal.parse? (text : String) : Option Literal := do
  let tokens ← Token.scan? text
  match ← (Reader.literal false (tokens.length + 1) Reader.nestingLimit).run tokens with
  | (value, []) => some value
  | _ => none

end RemoteNodes
