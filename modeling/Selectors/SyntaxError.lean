import Selectors.Token

/-!
What can be wrong with selector text. A `SyntaxFault` names the fault and holds what was found; a
`SyntaxError` adds the position at which reading stopped. Positions count tokens from zero.
-/

namespace Selectors

/-- A fault in selector text. -/
inductive SyntaxFault : Type where
  | expectedSelector (found : Token)
  | expectedSelectorAfterCombinator (found : Token)
  /-- A token after a selector that neither ends the list nor goes on with it. -/
  | unexpected (found : Token)
  /-- A hash whose text is no identifier. -/
  | invalidId (value : String)
  | expectedClassName (found : Token)
  | undeclaredNamespace (name : String)
  | expectedAttributeName (found : Token)
  /-- A character before an equals sign that makes no operator with it. -/
  | unknownOperator (lead : Char)
  | expectedOperator (found : Token)
  | expectedAttributeValue (found : Token)
  /-- An identifier after the value of an attribute selector. -/
  | unsupportedFlag (flag : String)
  | expectedBracket (found : Token)
  | expectedPseudoElementName (found : Token)
  | expectedPseudoClassName (found : Token)
  | pseudoElementInNegation
  | expectedSelectorInNegation (found : Token)
  | expectedParenthesis (found : Token)
  /-- The text ends among the arguments of a pseudo-class. -/
  | unclosedArguments
deriving DecidableEq

/-- The text for a fault. -/
def SyntaxFault.text : SyntaxFault → String
  | .expectedSelector found => "expected selector, got " ++ found.text
  | .expectedSelectorAfterCombinator found =>
    "expected selector after combinator, got " ++ found.text
  | .unexpected found => "unexpected " ++ found.text
  | .invalidId value => "invalid ID selector '#" ++ value ++ "'"
  | .expectedClassName found => "expected class name, got " ++ found.text
  | .undeclaredNamespace name => "undeclared namespace prefix '" ++ name ++ "'"
  | .expectedAttributeName found => "expected attribute name, got " ++ found.text
  | .unknownOperator lead => "unknown attribute operator '" ++ lead.toString ++ "='"
  | .expectedOperator found => "expected ']' or attribute operator, got " ++ found.text
  | .expectedAttributeValue found => "expected attribute value, got " ++ found.text
  | .unsupportedFlag flag => "attribute selector flag '" ++ flag ++ "' is not supported"
  | .expectedBracket found => "expected ']', got " ++ found.text
  | .expectedPseudoElementName found => "expected pseudo-element name, got " ++ found.text
  | .expectedPseudoClassName found => "expected pseudo-class name, got " ++ found.text
  | .pseudoElementInNegation => "pseudo-elements are not allowed inside :not()"
  | .expectedSelectorInNegation found => "expected selector in :not(), got " ++ found.text
  | .expectedParenthesis found => "expected ')' after :not() argument, got " ++ found.text
  | .unclosedArguments => "unclosed functional pseudo-class"

/-- A fault and the number of tokens that had been read when it was noticed. -/
structure SyntaxError : Type where
  fault : SyntaxFault
  position : Nat
deriving DecidableEq

/-- The message for an error: the fault and where reading stopped. -/
def SyntaxError.message (e : SyntaxError) : String :=
  e.fault.text ++ " (at token " ++ toString e.position ++ ")"

end Selectors
