import Selectors.Document.Load
import Selectors.Namespaces

/-!
The arguments of the command line. There are two commands: one shows what selectors compile to, the
other one lists the elements of a document that they match.

Options stand before or after the selectors. A value follows its option as the next argument or
after an equals sign; an argument that looks like an option is never taken as a value. Two
hyphens alone end the options. `Command.ofArguments` reads a whole command.
-/

namespace Selectors

namespace CommandLine

/-- What is asked for. -/
inductive Command : Type where
  /-- Show what selectors compile to. -/
  | compile (selectors : String) (table : Namespaces)
  /-- List the elements of the document in a file that selectors match. -/
  | find (selectors : String) (file : String) (options : LoadOptions) (table : Namespaces)

/-- Why arguments ask for nothing. -/
inductive UsageError : Type where
  | noCommand
  | unknownCommand (name : String)
  | unexpected (argument : String)
  | missingValue (option : String)
  | repeated (option : String)
  /-- A namespace is not declared by a name, an equals sign and a URL. -/
  | invalidBinding (value : String)
  | missing (what : String)
deriving DecidableEq, Repr

/-- The message for an error. -/
def UsageError.message : UsageError → String
  | .noCommand => "error: a command is required"
  | .unknownCommand name => "error: unrecognized subcommand '" ++ name ++ "'"
  | .unexpected argument => "error: unexpected argument '" ++ argument ++ "' found"
  | .missingValue option => "error: a value is required for '" ++ option ++ "'"
  | .repeated option => "error: the argument '" ++ option ++ "' cannot be used multiple times"
  | .invalidBinding value => "error: expected PREFIX=URL, got '" ++ value ++ "'"
  | .missing what => "error: the required argument " ++ what ++ " was not provided"

/-! ## Single arguments -/

/-- The form of an argument. -/
inductive Word : Type where
  /-- Two hyphens alone. -/
  | endOfOptions
  /-- Two hyphens and a name, with what follows an equals sign. -/
  | long (name : String) (value? : Option String)
  /-- One hyphen and a letter, with what follows it. -/
  | short (letter : Char) (rest : List Char)
  | plain (text : String)

/-- The part of a text before the first equals sign, and the part after it. -/
def splitAtEquals (cs : List Char) : String × Option String :=
  (String.ofList (cs.takeWhile (· != '=')),
    match cs.dropWhile (· != '=') with
    | [] => none
    | _ :: value => some (String.ofList value))

/-- The form of an argument. A hyphen alone is plain. -/
def Word.ofArgument (argument : String) : Word :=
  match argument.toList with
  | ['-', '-'] => .endOfOptions
  | '-' :: '-' :: rest =>
    let (name, value?) := splitAtEquals rest
    .long name value?
  | '-' :: letter :: rest => .short letter rest
  | _ => .plain argument

/-- The value that is written on to the letter of an option. One equals sign in between is no part
of it. -/
def attachedValue? : List Char → Option String
  | [] => none
  | '=' :: rest => some (String.ofList rest)
  | rest => some (String.ofList rest)

/-! ## Settings -/

/-- The options that take a value. -/
inductive Setting : Type where
  | binding
  | defaultNamespace
  | language
  | document
deriving DecidableEq, Repr

/-- The name of an option as it is written. -/
def Setting.name : Setting → String
  | .binding => "--ns"
  | .defaultNamespace => "--default-ns"
  | .language => "--lang"
  | .document => "--document"

/-- What the arguments read so far have set. -/
structure Settings : Type where
  selectors? : Option String := none
  file? : Option String := none
  html : Bool := false
  language? : Option String := none
  table : Namespaces := {}

/-- Declares a namespace written as a name, an equals sign and a URL. The name is not empty. -/
def declareBinding (table : Namespaces) (value : String) : Except UsageError Namespaces :=
  match splitAtEquals value.toList with
  | (name, some url) =>
    if name.isEmpty then .error (.invalidBinding value) else .ok (table.declare name url)
  | _ => .error (.invalidBinding value)

namespace Settings

/-- Gives an option its value. Only namespaces can be declared more than once, and the name of a
file is not empty. -/
def set (s : Settings) (setting : Setting) (value : String) : Except UsageError Settings :=
  match setting with
  | .binding => (declareBinding s.table value).map fun table => { s with table := table }
  | .defaultNamespace =>
    if s.table.unprefixed?.isSome then .error (.repeated setting.name)
    else .ok { s with table := { s.table with unprefixed? := some value } }
  | .language =>
    if s.language?.isSome then .error (.repeated setting.name)
    else .ok { s with language? := some value }
  | .document =>
    if s.file?.isSome then .error (.repeated setting.name)
    else if value.isEmpty then .error (.missingValue setting.name)
    else .ok { s with file? := some value }

/-- Takes an argument that is no option: the selectors, of which there is one text. -/
def setSelectors (s : Settings) (text : String) : Except UsageError Settings :=
  if s.selectors?.isSome then .error (.unexpected text) else .ok { s with selectors? := some text }

/-- Takes the flag for HTML documents. -/
def setHtml (s : Settings) : Except UsageError Settings :=
  if s.html then .error (.repeated "--html") else .ok { s with html := true }

end Settings

/-! ## Commands -/

/-- The option with a long name. Only the command that reads a document has more than namespaces. -/
def longSetting? (readsDocument : Bool) (name : String) : Option Setting :=
  match name, readsDocument with
  | "ns", _ => some .binding
  | "default-ns", _ => some .defaultNamespace
  | "lang", true => some .language
  | "document", true => some .document
  | _, _ => none

/-- An argument can be taken as the value of the option before it. -/
def isValue (argument : String) : Bool :=
  match Word.ofArgument argument with
  | .plain _ => true
  | _ => false

/-- Takes arguments after the end of the options. -/
def readPlain : List String → Settings → Except UsageError Settings
  | [], s => .ok s
  | argument :: rest, s =>
    match s.setSelectors argument with
    | .error e => .error e
    | .ok s => readPlain rest s

/-- Takes the arguments of a command one by one. -/
def readArguments (readsDocument : Bool) : List String → Settings → Except UsageError Settings
  | [], s => .ok s
  | argument :: rest, s =>
    let withNext (setting : Setting) : Except UsageError Settings :=
      match rest with
      | [] => .error (.missingValue argument)
      | value :: rest =>
        if isValue value then
          match s.set setting value with
          | .error e => .error e
          | .ok s => readArguments readsDocument rest s
        else .error (.missingValue argument)
    let goOn (s : Except UsageError Settings) : Except UsageError Settings :=
      match s with
      | .error e => .error e
      | .ok s => readArguments readsDocument rest s
    match Word.ofArgument argument with
    | .plain text => goOn (s.setSelectors text)
    | .endOfOptions => readPlain rest s
    | .long "html" none => if readsDocument then goOn s.setHtml else .error (.unexpected argument)
    | .long name value? =>
      match longSetting? readsDocument name, value? with
      | none, _ => .error (.unexpected argument)
      | some setting, some value => goOn (s.set setting value)
      | some setting, none => withNext setting
    | .short 'd' attached =>
      if readsDocument then
        match attachedValue? attached with
        | some value => goOn (s.set .document value)
        | none => withNext .document
      else .error (.unexpected argument)
    | .short _ _ => .error (.unexpected argument)

/-- The command that arguments ask for. -/
def Command.ofArguments : List String → Except UsageError Command
  | [] => .error .noCommand
  | "compile" :: rest =>
    match readArguments false rest {} with
    | .error e => .error e
    | .ok s =>
      match s.selectors? with
      | some selectors => .ok (.compile selectors s.table)
      | none => .error (.missing "<SELECTORS>")
  | "match" :: rest =>
    match readArguments true rest {} with
    | .error e => .error e
    | .ok s =>
      match s.selectors?, s.file? with
      | some selectors, some file =>
        .ok (.find selectors file ⟨s.html, s.language?⟩ s.table)
      | none, _ => .error (.missing "<SELECTORS>")
      | _, none => .error (.missing "--document <FILE>")
  | name :: _ => .error (.unknownCommand name)

end CommandLine

end Selectors
