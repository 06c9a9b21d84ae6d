import Selectors.AnPlusB.Parser
import Selectors.CompileError
import Selectors.Matcher

/-!
Pseudo-classes of a document that is only looked at: nobody points at anything, follows links or
fills in forms. A link is never visited, and what a form control is can be read from its
attributes alone.

`PseudoClass.matcher` and `functionalMatcher` say what the pseudo-classes ask of an element.
-/

namespace Selectors

/-! ## Without arguments -/

/-- The pseudo-classes without arguments. -/
inductive PseudoClass : Type where
  | link
  | enabled
  | disabled
  | checked
  | visited
  | hover
  | active
  | focus
  | target
  | root
  | firstChild
  | lastChild
  | firstOfType
  | lastOfType
  | onlyChild
  | onlyOfType
  | empty
deriving DecidableEq, Repr

namespace PseudoClass

/-- The name as it is written after the colon. -/
def name : PseudoClass → String
  | .link => "link"
  | .enabled => "enabled"
  | .disabled => "disabled"
  | .checked => "checked"
  | .visited => "visited"
  | .hover => "hover"
  | .active => "active"
  | .focus => "focus"
  | .target => "target"
  | .root => "root"
  | .firstChild => "first-child"
  | .lastChild => "last-child"
  | .firstOfType => "first-of-type"
  | .lastOfType => "last-of-type"
  | .onlyChild => "only-child"
  | .onlyOfType => "only-of-type"
  | .empty => "empty"

/-- The pseudo-class with a name. -/
def ofName? (name : String) : Option PseudoClass :=
  match name with
  | "link" => some .link
  | "enabled" => some .enabled
  | "disabled" => some .disabled
  | "checked" => some .checked
  | "visited" => some .visited
  | "hover" => some .hover
  | "active" => some .active
  | "focus" => some .focus
  | "target" => some .target
  | "root" => some .root
  | "first-child" => some .firstChild
  | "last-child" => some .lastChild
  | "first-of-type" => some .firstOfType
  | "last-of-type" => some .lastOfType
  | "only-child" => some .onlyChild
  | "only-of-type" => some .onlyOfType
  | "empty" => some .empty
  | _ => none

theorem ofName?_name (c : PseudoClass) : ofName? c.name = some c := by
  cases c <;> rfl

/-- A name finds the pseudo-class that it is the name of. -/
theorem ofName?_eq_some_iff {name : String} {c : PseudoClass} :
    ofName? name = some c ↔ name = c.name := by
  constructor
  · intro known
    unfold ofName? at known
    split at known <;> cases known <;> rfl
  · intro same
    rw [same, ofName?_name]

theorem ofName?_eq_none_iff {name : String} :
    ofName? name = none ↔ ∀ c : PseudoClass, name ≠ c.name := by
  simp only [Option.eq_none_iff_forall_ne_some, Ne, ofName?_eq_some_iff]

end PseudoClass

/-- The HTML elements that can be a link. -/
def linkElements : List String := ["a", "area", "link"]

/-- The HTML elements that can be disabled. -/
def formControls : List String :=
  ["button", "input", "select", "textarea", "option", "optgroup", "menuitem", "fieldset"]

/-- The element is an HTML element with one of some names. -/
def Matcher.htmlElement (names : List String) : Matcher := .test (.htmlElement names)

/-- The element has an attribute, whatever its value. -/
def Matcher.attributePresent (name : String) : Matcher := .test (.hasAttribute "" name .present)

/-- What a pseudo-class without arguments asks of an element. -/
def PseudoClass.matcher : PseudoClass → Matcher
  | .link => .all [.htmlElement linkElements, .attributePresent "href"]
  | .enabled =>
    .any [.all [.htmlElement formControls, (Matcher.attributePresent "disabled").negate],
      .all [.htmlElement linkElements, .attributePresent "href"]]
  | .disabled => .all [.htmlElement formControls, .attributePresent "disabled"]
  | .checked =>
    .any [.all [.htmlElement ["input", "menuitem"], .attributePresent "checked"],
      .all [.htmlElement ["option"], .attributePresent "selected"]]
  | .visited => .never
  | .hover => .never
  | .active => .never
  | .focus => .never
  | .target => .never
  | .root => .test .root
  | .firstChild => .test .firstChild
  | .lastChild => .test .lastChild
  | .firstOfType => .test .firstOfType
  | .lastOfType => .test .lastOfType
  | .onlyChild => .test .onlyChild
  | .onlyOfType => .test .onlyOfType
  | .empty => .test .empty

/-- What the pseudo-class with a name asks of an element. -/
def pseudoClassMatcher (name : String) : Except CompileError Matcher :=
  match PseudoClass.ofName? name with
  | some c => .ok c.matcher
  | none => .error (.unknownPseudoClass name)

/-! ## With arguments -/

/-- The pseudo-classes with arguments. -/
inductive FunctionalPseudoClass : Type where
  | lang
  | nth (kind : NthKind)
deriving DecidableEq, Repr

namespace FunctionalPseudoClass

/-- The name as it is written between the colon and the parenthesis. -/
def name : FunctionalPseudoClass → String
  | .lang => "lang"
  | .nth .child => "nth-child"
  | .nth .lastChild => "nth-last-child"
  | .nth .ofType => "nth-of-type"
  | .nth .lastOfType => "nth-last-of-type"

/-- The pseudo-class with a name. -/
def ofName? (name : String) : Option FunctionalPseudoClass :=
  match name with
  | "lang" => some .lang
  | "nth-child" => some (.nth .child)
  | "nth-last-child" => some (.nth .lastChild)
  | "nth-of-type" => some (.nth .ofType)
  | "nth-last-of-type" => some (.nth .lastOfType)
  | _ => none

theorem ofName?_name (c : FunctionalPseudoClass) : ofName? c.name = some c := by
  cases c with
  | lang => rfl
  | nth kind => cases kind <;> rfl

/-- A name finds the pseudo-class that it is the name of. -/
theorem ofName?_eq_some_iff {name : String} {c : FunctionalPseudoClass} :
    ofName? name = some c ↔ name = c.name := by
  constructor
  · intro known
    unfold ofName? at known
    split at known <;> cases known <;> rfl
  · intro same
    rw [same, ofName?_name]

theorem ofName?_eq_none_iff {name : String} :
    ofName? name = none ↔ ∀ c : FunctionalPseudoClass, name ≠ c.name := by
  simp only [Option.eq_none_iff_forall_ne_some, Ne, ofName?_eq_some_iff]

end FunctionalPseudoClass

/-- What the functional pseudo-class with a name and arguments asks of an element. A language is one
identifier with nothing but blanks around it. -/
def functionalMatcher (name : String) (arguments : List Token) : Except CompileError Matcher :=
  match FunctionalPseudoClass.ofName? name with
  | none => .error (.unknownPseudoClass name)
  | some .lang =>
    match AnPlusB.solid arguments with
    | [.ident range] => .ok (.test (.lang range))
    | _ => .error (.invalidArguments name .identifier)
  | some (.nth kind) =>
    match AnPlusB.parse? arguments with
    | some position => .ok (.test (.nth kind position))
    | none => .error (.invalidArguments name .anPlusB)

end Selectors
