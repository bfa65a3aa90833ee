/-!
Options on a command line. An option has a long name, as in `--schema`, and may have a letter, as
in `-s`. Its value is the next word, or follows the long name after an equals sign or the letter
directly. Letters can be joined: `-vs` is `-v -s`. After two dashes alone no word is an option.

* `readOptions`: the options in words with their values, and the other words.
-/

namespace RemoteNodes

/-- Why a command line cannot be understood. -/
inductive UsageFault where
  | noCommand
  | unknownCommand (name : String)
  | unknownOption (name : String)
  | noValue (option : String)
  | needlessValue (option : String)
  | needlessWord (word : String)
  | noOption (option : String)
  | noSuchPath (path : String)
  | notAFile (path : String)
  | notAFolder (path : String)
  | badNumber (text : String)
  | badHeader (text : String)
  deriving Repr, DecidableEq

/-- The wording of a fault. -/
def UsageFault.message : UsageFault → String
  | noCommand => "Missing command."
  | unknownCommand name => "No such command: " ++ name
  | unknownOption name => "No such option: " ++ name
  | noValue option => "Option --" ++ option ++ " requires an argument."
  | needlessValue option => "Option --" ++ option ++ " does not take a value."
  | needlessWord word => "Got unexpected extra argument: " ++ word
  | noOption option => "Missing option --" ++ option
  | noSuchPath path => "Path does not exist: " ++ path
  | notAFile path => "Path is a directory: " ++ path
  | notAFolder path => "Path is a file: " ++ path
  | badNumber text => "Not a positive number: " ++ text
  | badHeader text => "Not a header: " ++ text

/-- An option that a command has. -/
structure OptionForm where
  name : String
  letter? : Option Char := none
  takesValue : Bool := true
  deriving Repr, DecidableEq

/-- The options that words give, by name, with their values. -/
abbrev GivenOptions := List (String × String)

/-- The options in a cluster of letters, and the one at its end that takes the next word for its
value. -/
def readLetters (forms : List OptionForm) :
    List Char → Except UsageFault (GivenOptions × Option String)
  | [] => .ok ([], none)
  | c :: cs =>
    match forms.find? (·.letter? == some c) with
    | none => .error (.unknownOption (String.ofList ['-', c]))
    | some form =>
      if form.takesValue then
        if cs.isEmpty then .ok ([], some form.name) else .ok ([(form.name, String.ofList cs)], none)
      else do
        let (given, open?) ← readLetters forms cs
        return ((form.name, "") :: given, open?)

/-- The options in a word that begins with a dash. -/
def readOption (forms : List OptionForm) (word : String) :
    Except UsageFault (GivenOptions × Option String) :=
  let (long, rest) := word.toList.span (· != '=')
  match forms.find? (fun form => ("--" ++ form.name).toList == long), rest with
  | some form, _ :: value =>
    if form.takesValue then .ok ([(form.name, String.ofList value)], none)
    else .error (.needlessValue form.name)
  | some form, [] =>
    if form.takesValue then .ok ([], some form.name) else .ok ([(form.name, "")], none)
  | none, _ =>
    match word.toList with
    | '-' :: '-' :: _ => .error (.unknownOption word)
    | _ :: letters => readLetters forms letters
    | [] => .ok ([], none)

/-- Whether a word is an option: a dash alone is not. -/
def isOption (word : String) : Bool :=
  match word.toList with
  | '-' :: _ :: _ => true
  | _ => false

/-- The options in words with their values, and the other words. -/
def readOptions (forms : List OptionForm) :
    List String → Except UsageFault (GivenOptions × List String)
  | [] => .ok ([], [])
  | "--" :: words => .ok ([], words)
  | word :: words =>
    if isOption word then
      match readOption forms word with
      | .error fault => .error fault
      | .ok (given, none) => do
        let (others, extra) ← readOptions forms words
        return (given ++ others, extra)
      | .ok (given, some name) =>
        match words with
        | [] => .error (.noValue name)
        | value :: words => do
          let (others, extra) ← readOptions forms words
          return (given ++ (name, value) :: others, extra)
    else do
      let (given, extra) ← readOptions forms words
      return (given, word :: extra)

namespace GivenOptions

/-- The value of an option that was given last. -/
def last? (given : GivenOptions) (name : String) : Option String :=
  (given.reverse.find? (·.1 == name)).map (·.2)

/-- The value of an option that has to be given. -/
def required (given : GivenOptions) (name : String) : Except UsageFault String :=
  match given.last? name with
  | some value => .ok value
  | none => .error (.noOption name)

/-- All values of an option in order. -/
def all (given : GivenOptions) (name : String) : List String :=
  (given.filter (·.1 == name)).map (·.2)

/-- Whether an option was given. -/
def has (given : GivenOptions) (name : String) : Bool := (given.last? name).isSome

end GivenOptions

end RemoteNodes
