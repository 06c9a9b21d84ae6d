import Selectors.CompileError
import Selectors.Specificity
import Selectors.Token

/-!
Selectors as trees. A chain is one or more compounds joined by combinators, nested to the left; its
last compound, the subject, describes the element itself. A compound is a list of simple
selectors that all have to hold, so the empty one is the universal selector.

`Chain.specificity` counts the simple selectors of a chain.
-/

namespace Selectors

/-! ## Combinators and attribute operators -/

/-- How the element of one compound stands to the element of the next one. -/
inductive Combinator : Type where
  /-- It is an ancestor. -/
  | descendant
  /-- It is the parent. -/
  | child
  /-- It is the sibling just before. -/
  | nextSibling
  /-- It is some sibling before. -/
  | subsequentSibling
deriving DecidableEq, Repr

namespace Combinator

/-- The character that is written between the two compounds. -/
def symbol : Combinator → Char
  | .descendant => ' '
  | .child => '>'
  | .nextSibling => '+'
  | .subsequentSibling => '~'

/-- The combinator with a symbol. -/
def ofSymbol (c : Char) : Except CompileError Combinator :=
  match c with
  | ' ' => .ok .descendant
  | '>' => .ok .child
  | '+' => .ok .nextSibling
  | '~' => .ok .subsequentSibling
  | c => .error (.unknownCombinator c.toString)

theorem ofSymbol_symbol (k : Combinator) : ofSymbol k.symbol = .ok k := by
  cases k <;> rfl

end Combinator

/-- How the value of an attribute is compared with the operand. -/
inductive AttributeOperator : Type where
  /-- It is the operand. -/
  | equals
  /-- One of its words is the operand. -/
  | includes
  /-- It is the operand, or starts with the operand and a hyphen. -/
  | dashMatch
  /-- It starts with the operand. -/
  | startsWith
  /-- It ends with the operand. -/
  | endsWith
  /-- The operand stands somewhere in it. -/
  | contains
deriving DecidableEq, Repr

namespace AttributeOperator

/-- The operator as it is written. -/
def symbol : AttributeOperator → String
  | .equals => "="
  | .includes => "~="
  | .dashMatch => "|="
  | .startsWith => "^="
  | .endsWith => "$="
  | .contains => "*="

/-- The operator that is spelled in a given way. -/
def ofSymbol (symbol : String) : Except CompileError AttributeOperator :=
  match symbol with
  | "=" => .ok .equals
  | "~=" => .ok .includes
  | "|=" => .ok .dashMatch
  | "^=" => .ok .startsWith
  | "$=" => .ok .endsWith
  | "*=" => .ok .contains
  | symbol => .error (.unknownOperator symbol)

theorem ofSymbol_symbol (o : AttributeOperator) : ofSymbol o.symbol = .ok o := by
  cases o <;> rfl

/-- The operator that a character in front of an equals sign stands for. -/
def ofLead? : Char → Option AttributeOperator
  | '~' => some .includes
  | '|' => some .dashMatch
  | '^' => some .startsWith
  | '$' => some .endsWith
  | '*' => some .contains
  | _ => none

end AttributeOperator

/-! ## Trees -/

/-- A test of one attribute. -/
structure AttributeSelector : Type where
  /-- The namespace of the attribute: nothing for any namespace, the empty text for none. -/
  namespaceUrl? : Option String
  name : String
  /-- Nothing if the attribute only has to be there. -/
  operator? : Option AttributeOperator
  /-- What the value is compared with; empty if there is no operator. -/
  operand : String
deriving DecidableEq

/-- A single test of an element. -/
inductive Simple : Type where
  /-- Its local name. -/
  | typeName (name : String)
  /-- Its namespace, the empty text for none. -/
  | inNamespace (url : String)
  /-- One of its classes. -/
  | className (name : String)
  /-- Its identifier. -/
  | id (value : String)
  /-- One of its attributes. -/
  | hasAttribute (selector : AttributeSelector)
  /-- A pseudo-class without arguments. -/
  | pseudoClass (name : String)
  /-- A pseudo-class with the tokens between its parentheses, blanks included. -/
  | functional (name : String) (arguments : List Token)
  /-- Some member of the compound in parentheses does not hold. -/
  | negation (inner : List Simple)
deriving Inhabited

/-- Simple selectors that all have to hold, in the order they are written. -/
abbrev Compound : Type := List Simple

/-- Compounds joined by combinators. -/
inductive Chain : Type where
  | single (subject : Compound)
  | joined (left : Chain) (combinator : Combinator) (subject : Compound)
deriving Inhabited

/-- The compound that describes the element itself. -/
def Chain.subject : Chain → Compound
  | .single subject => subject
  | .joined _ _ subject => subject

/-- A selector as it was read. -/
structure Selector : Type where
  chain : Chain
  /-- Counted over the whole selector, a pseudo-element included. -/
  specificity : Specificity
  /-- The pseudo-element that the selector is meant for, in lower case. -/
  pseudoElement? : Option String

/-! ## Counting -/

mutual

/-- What a simple selector counts. A negation counts as much as what is in it; a namespace counts
nothing. -/
def Simple.specificity : Simple → Specificity
  | .typeName _ => ⟨0, 0, 1⟩
  | .inNamespace _ => .zero
  | .className _ => ⟨0, 1, 0⟩
  | .id _ => ⟨1, 0, 0⟩
  | .hasAttribute _ => ⟨0, 1, 0⟩
  | .pseudoClass _ => ⟨0, 1, 0⟩
  | .functional _ _ => ⟨0, 1, 0⟩
  | .negation inner => Simple.specificitySum inner

/-- What the members of a compound count together. -/
def Simple.specificitySum : List Simple → Specificity
  | [] => .zero
  | simple :: rest => simple.specificity + Simple.specificitySum rest

end

/-- What the compounds of a chain count together. -/
def Chain.specificity : Chain → Specificity
  | .single subject => Simple.specificitySum subject
  | .joined left _ subject => left.specificity + Simple.specificitySum subject

/-- What a whole selector counts: its chain, and one more type if it has a pseudo-element. -/
def Selector.ofChain (chain : Chain) (pseudoElement? : Option String) : Selector where
  chain := chain
  specificity :=
    chain.specificity + (if pseudoElement?.isSome then ⟨0, 0, 1⟩ else Specificity.zero)
  pseudoElement? := pseudoElement?

end Selectors
