import RemoteNodes.GraphQL.Document
import RemoteNodes.Text.Lines
import RemoteNodes.Text.Quoted
/-!
The written form of documents: two blanks of indentation, one blank line between definitions, no
line break at the end.

* `Document.text`, `Fragment.text`, `Selection.text`, `Argument.text`, `Directive.text`,
  `Literal.text`: the written forms.
-/

namespace RemoteNodes

namespace Layout

/-- The text between two others, unless it is empty. -/
def wrap (before text : String) (after : String := "") : String :=
  if text == "" then "" else before ++ text ++ after

/-- The texts that are not empty, with a separator between them. -/
def join (separator : String) (texts : List String) : String :=
  separator.intercalate (texts.filter (· != ""))

/-- Every line break of a text followed by two blanks. -/
def indentBreaks (s : String) : String :=
  if s.contains '\n' then
    String.ofList (s.toList.flatMap fun c => if c = '\n' then ['\n', ' ', ' '] else [c])
  else s

/-- Every line of a text two blanks further in. -/
def indent (s : String) : String := wrap "  " (indentBreaks s)

/-- Texts on lines of their own between braces, or nothing. -/
def block (texts : List String) : String :=
  wrap "\x7b\n" (indent (join "\n" texts)) "\n\x7d"

/-- Whether one of the texts has several lines. -/
def anyBreak (texts : List String) : Bool := texts.any (·.contains '\n')

end Layout

open Layout

/-! ### Strings -/

namespace Description

/-- A character inside a quoted GraphQL string. -/
def escapeChar (c : Char) : List Char :=
  if c = '"' then ['\\', '"']
  else if c = '\\' then ['\\', '\\']
  else if c = '\x08' then ['\\', 'b']
  else if c = '\t' then ['\\', 't']
  else if c = '\n' then ['\\', 'n']
  else if c = '\x0c' then ['\\', 'f']
  else if c = '\r' then ['\\', 'r']
  else if c.toNat < 32 || (127 ≤ c.toNat && c.toNat < 160) then
    '\\' :: 'u' :: (Text.hexDigits 4 c.toNat).map Char.toUpper
  else [c]

/-- A string in quotes. -/
def quotedText (value : String) : String :=
  String.ofList ('"' :: value.toList.flatMap escapeChar ++ ['"'])

/-- Three quotes in a row are escaped inside a block string. -/
def escapeQuotes : List Char → List Char
  | [] => []
  | '"' :: '"' :: '"' :: cs => '\\' :: '"' :: '"' :: '"' :: escapeQuotes cs
  | c :: cs => c :: escapeQuotes cs

/-- Whether a line begins with a blank. -/
def startsBlank (l : List Char) : Bool := l.head?.any fun c => c = ' ' || c = '\t'

/-- A block string. Its quotes stand on lines of their own unless the value is one short line that
does not end in a quote or backslash. -/
def blockText (value : String) : String :=
  let raw := value.toList
  let escaped := escapeQuotes raw
  let ls := Text.lines escaped
  let isSingle := ls.length ≤ 1
  let breakBefore := !isSingle && (ls.drop 1).all fun l => l.isEmpty || startsBlank l
  let endsInQuotes := ['"', '"', '"', '\\'].isPrefixOf escaped.reverse
  let breakAfter := (raw.getLast? == some '"' && !endsInQuotes) || raw.getLast? == some '\\'
  let spread := !isSingle || 70 < raw.length || breakAfter || breakBefore || endsInQuotes
  let stays := isSingle && startsBlank raw
  let before := if (spread && !stays) || breakBefore then "\n" else ""
  let after := if spread || breakAfter then "\n" else ""
  "\"\"\"" ++ before ++ String.ofList escaped ++ after ++ "\"\"\""

/-- A string as it was meant: a block or a quoted text. -/
def text (d : Description) : String :=
  if d.isBlock then blockText d.value else quotedText d.value

/-- A description on a line of its own. -/
def line : Option Description → String
  | none => ""
  | some d => d.text ++ "\n"

end Description

/-! ### Values and directives -/

mutual
/-- A literal. -/
def Literal.text : Literal → String
  | .variable name => "$" ++ name
  | .int text => text
  | .float text => text
  | .string value isBlock => Description.text ⟨value, isBlock⟩
  | .boolean true => "true"
  | .boolean false => "false"
  | .null => "null"
  | .enum name => name
  | .list items => "[" ++ join ", " (literalTexts items) ++ "]"
  | .object fields => "\x7b" ++ join ", " (fieldTexts fields) ++ "\x7d"
/-- The texts of literals. -/
def literalTexts : List Literal → List String
  | [] => []
  | x :: xs => x.text :: literalTexts xs
/-- The texts of the fields of an object literal. -/
def fieldTexts : List (String × Literal) → List String
  | [] => []
  | (k, x) :: xs => (k ++ ": " ++ x.text) :: fieldTexts xs
end

/-- An argument. -/
def Argument.text (a : Argument) : String := a.name ++ ": " ++ a.value.text

/-- A directive. -/
def Directive.text (d : Directive) : String :=
  "@" ++ d.name ++ wrap "(" (join ", " (d.arguments.map Argument.text)) ")"

/-- Directives with blanks between them. -/
def directivesText (ds : List Directive) : String := join " " (ds.map Directive.text)

/-! ### Selections -/

/-- Arguments in parentheses: on one line with the field's name if it stays within 80 characters,
else each on a line of its own. -/
def argumentsText (head : String) (arguments : List Argument) : String :=
  let texts := arguments.map Argument.text
  let line := wrap "(" (join ", " texts) ")"
  if 80 < head.length + line.length then wrap "(\n" (indent (join "\n" texts)) "\n)" else line

mutual
/-- A selection. -/
def Selection.text : Selection → String
  | .field alias? name arguments directives none =>
    let head := wrap "" (alias?.getD "") ": " ++ name
    join " " [head ++ argumentsText head arguments, directivesText directives]
  | .field alias? name arguments directives (some selections) =>
    let head := wrap "" (alias?.getD "") ": " ++ name
    join " " [head ++ argumentsText head arguments, directivesText directives,
      block (selectionTexts selections)]
  | .spread fragment directives => "..." ++ fragment ++ wrap " " (directivesText directives)
  | .inline condition? directives selections =>
    join " " ["...", wrap "on " (condition?.getD ""), directivesText directives,
      block (selectionTexts selections)]
/-- The texts of selections. -/
def selectionTexts : List Selection → List String
  | [] => []
  | s :: ss => s.text :: selectionTexts ss
end

/-- A selection set in braces. -/
def selectionSetText (selections : List Selection) : String := block (selectionTexts selections)

/-! ### Definitions -/

/-- The declaration of a variable. -/
def VariableDefinition.text (v : VariableDefinition) : String :=
  Description.line v.description? ++ "$" ++ v.name ++ ": " ++ v.type.text ++
    wrap " = " ((v.default?.map Literal.text).getD "") ++ wrap " " (directivesText v.directives)

/-- Variable definitions in parentheses, on lines of their own if one of them has several lines. -/
def variablesText (definitions : List VariableDefinition) : String :=
  let texts := definitions.map VariableDefinition.text
  if anyBreak texts then wrap "(\n" (join "\n" texts) "\n)" else wrap "(" (join ", " texts) ")"

/-- An operation; a query with nothing but selections is a bare selection set. -/
def Operation.text (o : Operation) : String :=
  let head := Description.line o.description? ++ join " " [o.kind.text,
    join "" [o.name?.getD "", variablesText o.variableDefinitions], directivesText o.directives]
  (if head == "query" then "" else head ++ " ") ++ selectionSetText o.selections

/-- A fragment. -/
def Fragment.text (f : Fragment) : String :=
  Description.line f.description? ++ "fragment " ++ f.name ++ " on " ++ f.condition ++ " " ++
    wrap "" (directivesText f.directives) " " ++ selectionSetText f.selections

/-- A declared argument or input field. -/
def InputDefinition.text (d : InputDefinition) : String :=
  Description.line d.description? ++ join " " [d.name ++ ": " ++ d.type.text,
    wrap "= " ((d.default?.map Literal.text).getD ""), directivesText d.directives]

/-- Declared arguments in parentheses, on lines of their own if one of them has several lines. -/
def inputsText (inputs : List InputDefinition) : String :=
  let texts := inputs.map InputDefinition.text
  if anyBreak texts then wrap "(\n" (indent (join "\n" texts)) "\n)"
  else wrap "(" (join ", " texts) ")"

/-- A declared field. -/
def FieldDefinition.text (d : FieldDefinition) : String :=
  Description.line d.description? ++ d.name ++ inputsText d.arguments ++ ": " ++ d.type.text ++
    wrap " " (directivesText d.directives)

/-- A declared value of an enumeration. -/
def EnumValueDefinition.text (d : EnumValueDefinition) : String :=
  Description.line d.description? ++ join " " [d.name, directivesText d.directives]

/-- A definition of a type. -/
def TypeDefinition.text (d : TypeDefinition) : String :=
  let word := if d.isExtension then "extend " else ""
  let directives := directivesText d.directives
  let implements := fun (names : List String) => wrap "implements " (join " & " names)
  Description.line d.description? ++
    match d.body with
    | .scalar => join " " [word ++ "scalar", d.name, directives]
    | .object interfaces fields =>
      join " " [word ++ "type", d.name, implements interfaces, directives,
        block (fields.map FieldDefinition.text)]
    | .interface interfaces fields =>
      join " " [word ++ "interface", d.name, implements interfaces, directives,
        block (fields.map FieldDefinition.text)]
    | .union members =>
      join " " [word ++ "union", d.name, directives, wrap "= " (join " | " members)]
    | .enum values =>
      join " " [word ++ "enum", d.name, directives, block (values.map EnumValueDefinition.text)]
    | .input fields =>
      join " " [word ++ "input", d.name, directives, block (fields.map InputDefinition.text)]

/-- A definition of the root types. -/
def SchemaDefinition.text (d : SchemaDefinition) : String :=
  Description.line d.description? ++
    join " " [if d.isExtension then "extend schema" else "schema", directivesText d.directives,
      block (d.roots.map fun r => r.1.text ++ ": " ++ r.2)]

/-- A definition of a directive. -/
def DirectiveDefinition.text (d : DirectiveDefinition) : String :=
  Description.line d.description? ++ "directive @" ++ d.name ++ inputsText d.arguments ++
    (if d.isRepeatable then " repeatable" else "") ++ " on " ++ join " | " d.locations

/-- A definition of any kind. -/
def Definition.text : Definition → String
  | .operation o => o.text
  | .fragment f => f.text
  | .schema d => d.text
  | .type d => d.text
  | .directive d => d.text

/-- A document, its definitions separated by blank lines. -/
def Document.text (document : Document) : String :=
  join "\n\n" (document.map Definition.text)

end RemoteNodes
