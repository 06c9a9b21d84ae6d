import Selectors.PseudoClass
import Selectors.Selector.Parser

/-!
Compiled selectors. A chain becomes one matcher, read from the subject outwards: the subject is
tested first, and each combinator becomes a predicate over the relatives that it names. Faults
are looked for in the whole chain, in the order it is written, also where a constant already
decides it.

Beside the matcher a compiled selector has hints (`Hints`): an identifier, a class, a name and a
namespace that every matching element has. `compileList` reads and compiles a whole text.
-/

namespace Selectors

/-! ## Matchers of selectors -/

/-- What an attribute selector asks of an element. An operand that no value can satisfy makes it a
selector that never matches. -/
def AttributeSelector.matcher (a : AttributeSelector) : Except CompileError Matcher :=
  match a.namespaceUrl? with
  | none => .error (.anyNamespaceAttribute a.name)
  | some url =>
    let test (t : AttributeTest) : Matcher := .test (.hasAttribute url a.name t)
    .ok <|
      match a.operator? with
      | none => test .present
      | some .equals => test (.equals a.operand)
      | some .includes =>
        if a.operand.isEmpty || a.operand.toList.any isBlank then .never
        else test (.includes a.operand)
      | some .dashMatch => test (.dashMatch a.operand)
      | some .startsWith => if a.operand.isEmpty then .never else test (.startsWith a.operand)
      | some .endsWith => if a.operand.isEmpty then .never else test (.endsWith a.operand)
      | some .contains => if a.operand.isEmpty then .never else test (.contains a.operand)

mutual

/-- What a simple selector asks of an element. -/
def Simple.matcher : Simple → Except CompileError Matcher
  | .typeName name => .ok (.test (.typeName name))
  | .inNamespace url => .ok (.test (.inNamespace url))
  | .className name => .ok (.test (.className name))
  | .id value => .ok (.test (.id value))
  | .hasAttribute selector => selector.matcher
  | .pseudoClass name => pseudoClassMatcher name
  | .functional name arguments => functionalMatcher name arguments
  | .negation inner => (Simple.matchers inner).map fun members => (Matcher.all members).negate

/-- What the members of a compound ask, or the first fault among them. -/
def Simple.matchers : List Simple → Except CompileError (List Matcher)
  | [] => .ok []
  | simple :: rest =>
    match simple.matcher with
    | .error e => .error e
    | .ok m => (Simple.matchers rest).map (m :: ·)

end

/-- What a compound asks: all that its members ask. -/
def Compound.matcher (c : Compound) : Except CompileError Matcher :=
  (Simple.matchers c).map Matcher.all

/-- What a combinator asks, given what is asked of the relative. Where the relative may be any
element, it still has to exist. -/
def Combinator.relation (k : Combinator) : Matcher → Matcher
  | .never => .never
  | .always =>
    match k with
    | .descendant => .test .hasParent
    | .child => .test .hasParent
    | .nextSibling => .test .hasPrevious
    | .subsequentSibling => .test .hasPrevious
  | .test p =>
    match k with
    | .descendant => .test (.ancestor p)
    | .child => .test (.parent p)
    | .nextSibling => .test (.previous p)
    | .subsequentSibling => .test (.precedingSibling p)

/-- What a chain asks of the element that its subject describes. -/
def Chain.matcher : Chain → Except CompileError Matcher
  | .single subject => Compound.matcher subject
  | .joined left k subject =>
    match left.matcher with
    | .error e => .error e
    | .ok relative =>
      match Compound.matcher subject with
      | .error e => .error e
      | .ok own => .ok (.all [own, k.relation relative])

/-- A compound compiles if its first member does and the others do. -/
theorem Simple.matchers_cons_eq_ok_iff {simple : Simple} {rest : List Simple} {ms : List Matcher} :
    Simple.matchers (simple :: rest) = .ok ms ↔
      ∃ m members, simple.matcher = .ok m ∧ Simple.matchers rest = .ok members ∧
        m :: members = ms := by
  rw [Simple.matchers]
  cases simple.matcher with
  | error e => simp
  | ok m => cases Simple.matchers rest <;> simp [Except.map]

/-- A chain compiles if both sides of its last combinator do. -/
theorem Chain.matcher_joined_eq_ok_iff {left : Chain} {k : Combinator} {subject : Compound}
    {m : Matcher} :
    (Chain.joined left k subject).matcher = .ok m ↔
      ∃ relative own, left.matcher = .ok relative ∧ Compound.matcher subject = .ok own ∧
        .all [own, k.relation relative] = m := by
  rw [Chain.matcher]
  cases left.matcher with
  | error e => simp
  | ok relative => cases Compound.matcher subject <;> simp

/-! ## Hints -/

/-- What every element that a selector matches is known to have. -/
structure Hints : Type where
  id? : Option String := none
  className? : Option String := none
  typeName? : Option String := none
  namespaceUrl? : Option String := none
deriving DecidableEq, Repr

/-- The first member of each kind in a compound; negated ones say nothing. -/
def Compound.hints (c : Compound) : Hints where
  id? := c.findSome? fun | .id value => some value | _ => none
  className? := c.findSome? fun | .className name => some name | _ => none
  typeName? := c.findSome? fun | .typeName name => some name | _ => none
  namespaceUrl? := c.findSome? fun | .inNamespace url => some url | _ => none

/-! ## Compiled selectors -/

/-- A selector that can be put to elements. -/
structure Compiled : Type where
  matcher : Matcher
  specificity : Specificity
  pseudoElement? : Option String
  /-- Taken from the subject alone. -/
  hints : Hints

namespace Compiled

/-- No element can match. -/
def neverMatches (c : Compiled) : Bool := c.matcher.isNever

/-- Whether an element matches. The pseudo-element is not looked at. -/
def accepts (c : Compiled) (doc : Document) (e : Element) : Bool := c.matcher.accepts doc e

end Compiled

/-- Compiles a selector. -/
def Selector.compile (s : Selector) : Except CompileError Compiled :=
  s.chain.matcher.map fun matcher =>
    { matcher := matcher
      specificity := s.specificity
      pseudoElement? := s.pseudoElement?
      hints := Compound.hints s.chain.subject }

/-- Compiles selectors in order, up to the first fault. -/
def compileAll : List Selector → Except CompileError (List Compiled)
  | [] => .ok []
  | s :: rest =>
    match s.compile with
    | .error e => .error e
    | .ok c => (compileAll rest).map (c :: ·)

/-- Why a text gave no compiled selectors. -/
inductive SelectorError : Type where
  | parse (e : SyntaxError)
  | compile (e : CompileError)
deriving DecidableEq

/-- The message of the fault itself. -/
def SelectorError.cause : SelectorError → String
  | .parse e => e.message
  | .compile e => e.message

/-- The message for an error. -/
def SelectorError.message : SelectorError → String
  | .parse e => "selector syntax error: " ++ e.message
  | .compile e => "selector compile error: " ++ e.message

/-- Reads and compiles selector text. -/
def compileList (text : String) (table : Namespaces) :
    Except SelectorError (List Compiled) :=
  match parse text table with
  | .error e => .error (.parse e)
  | .ok selectors =>
    match compileAll selectors with
    | .error e => .error (.compile e)
    | .ok compiled => .ok compiled

end Selectors
