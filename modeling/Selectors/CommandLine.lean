import Selectors.CommandLine.Arguments
import Selectors.CommandLine.ReadError
import Selectors.CommandLine.Style
import Selectors.Query
import Selectors.Warnings

/-!
The command line as a function: from arguments and a way to read files to what is written and the
exit code (`run`). Nothing here touches the outside world.

`elementPath` names an element by the steps from the root of its tree down to it; a step below the
root tells the place among the siblings, so no two elements of a tree have the same steps.
-/

namespace Selectors

namespace CommandLine

/-- What a run leaves behind. -/
structure Outcome : Type where
  exit : Nat
  stdout : String
  stderr : String
deriving DecidableEq, Repr

/-! ## Lines -/

/-- Lines, each with its line break. -/
def unlines (lines : List String) : String := String.join (lines.map (· ++ "\n"))

/-- A text with something before its first line and something else before every other one. -/
def indented (first later text : String) : String :=
  first ++ ("\n" ++ later).intercalate ((cut (· == '\n') text.toList).map String.ofList)

/-- A number right-aligned in five places. -/
def padded (n : Nat) : String :=
  let digits := toString n
  String.ofList (List.replicate (5 - digits.length) ' ') ++ digits

/-- The report of an error: what failed, and the chain of its causes. Several causes are
numbered. -/
def failureReport (what : String) (causes : List String) : String :=
  let listed :=
    match causes with
    | [cause] => [indented "    " "    " cause]
    | causes =>
      causes.zipIdx.map fun (cause, i) => indented (padded i ++ ": ") "       " cause
  unlines (("Error: " ++ what) :: "" :: "Caused by:" :: listed)

/-- A run that failed. -/
def Outcome.failure (stderr what : String) (causes : List String) : Outcome :=
  ⟨1, "", stderr ++ failureReport what causes⟩

/-! ## Showing selectors -/

/-- The word for the kind of a matcher. -/
def kindWord : Matcher → String
  | .always => green "always"
  | .never => red "never"
  | .test _ => cyan "predicate"

/-- The lines that show a compiled selector. -/
def selectorLines (c : Compiled) : List String :=
  let hint (label : String) (value? : Option String) : List String :=
    (value?.map fun value => "  " ++ label ++ ": " ++ dimmed value).toList
  (bold c.specificity.text ++ " " ++ kindWord c.matcher) ::
    (c.pseudoElement?.map fun name => "  pseudo-element: ::" ++ name).toList ++
    hint "id" c.hints.id? ++ hint "class" c.hints.className? ++
    hint "local name" c.hints.typeName? ++ hint "namespace" c.hints.namespaceUrl?

/-! ## Showing elements -/

/-- One step of a path: the name of the element, its identifier, and unless it is a root, its place
among its siblings counted from one. -/
def pathStep (doc : Document) (e : Element) : String :=
  e.data.name ++ e.data.id?.elim "" ("#" ++ ·) ++
    if (doc.parentElement? e).isSome then
      ":nth-child(" ++ toString (doc.siblingIndex e + 1) ++ ")"
    else ""

/-- The steps of a path from the root of the tree down to the element, whose own step is put
through `emphasis`. -/
def elementPath (emphasis : String → String) (doc : Document) (e : Element) : String :=
  " > ".intercalate
    ((doc.ancestorElements e).reverse.map (pathStep doc) ++ [emphasis (pathStep doc e)])

/-- The lines that list the elements of a document that selectors match. -/
def matchLines (doc : Document) (selectors : List Compiled) : List String :=
  match doc.documentElement? with
  | none => [yellow "document has no root element"]
  | some top =>
    let found := doc.queryAll top selectors
    found.map (elementPath bold doc) ++
      [dimmed (toString found.length ++ " matching elements")]

/-- The line that tells a warning. -/
def warningLine (w : Warning) : String :=
  yellow ("[sprig " ++ w.component ++ "] ⚠ " ++ w.message)

/-! ## Running -/

/-- A run that failed because selectors did not compile. -/
def Outcome.uncompiled (selectors : String) (e : SelectorError) : Outcome :=
  .failure "" ("failed to compile '" ++ selectors ++ "'") [e.message, e.cause]

/-- Runs a command. Each warning is told once, before anything that goes wrong after it. -/
def Command.run (read : String → Except ReadError String) : Command → Outcome
  | .compile selectors table =>
    match compileList selectors table with
    | .error e => .uncompiled selectors e
    | .ok compiled => ⟨0, unlines (compiled.flatMap selectorLines), ""⟩
  | .find selectors file options table =>
    match compileList selectors table with
    | .error e => .uncompiled selectors e
    | .ok compiled =>
      match read file with
      | .error e => .failure "" ("failed to read " ++ file) [e.message]
      | .ok source =>
        let (loaded, warnings) := Document.load options source
        let told := unlines ((({} : Warnings).fresh warnings).map warningLine)
        match loaded with
        | .error e => .failure told ("failed to load " ++ file) (e.message :: e.cause?.toList)
        | .ok doc => ⟨0, unlines (matchLines doc compiled), told⟩

/-- Runs the command that arguments ask for. -/
def run (read : String → Except ReadError String) (arguments : List String) : Outcome :=
  match Command.ofArguments arguments with
  | .error e => ⟨2, "", unlines [e.message]⟩
  | .ok command => command.run read

/-- The file that a command reads. -/
def Command.file? : Command → Option String
  | .compile _ _ => none
  | .find _ file _ _ => some file

end CommandLine

end Selectors
