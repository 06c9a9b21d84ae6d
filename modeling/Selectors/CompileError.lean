/-!
What can be wrong with a selector that is written correctly. A fault of this kind is found before
any document is seen; matching itself never fails.
-/

namespace Selectors

/-- What the arguments of a functional pseudo-class have to be. -/
inductive ArgumentForm : Type where
  | identifier
  | anPlusB
deriving DecidableEq, Repr

/-- The demand as it stands in a message. -/
def ArgumentForm.text : ArgumentForm → String
  | .identifier => "expected a single identifier"
  | .anPlusB => "expected An+B"

/-- A fault in the meaning of a selector. -/
inductive CompileError : Type where
  /-- No combinator has this symbol. -/
  | unknownCombinator (symbol : String)
  /-- No pseudo-class, or no functional one, has this name. -/
  | unknownPseudoClass (name : String)
  /-- No attribute operator is spelled like this. -/
  | unknownOperator (symbol : String)
  /-- The arguments of a functional pseudo-class are not of the form it needs. -/
  | invalidArguments (name : String) (expected : ArgumentForm)
  /-- An attribute is asked for in whatever namespace. -/
  | anyNamespaceAttribute (name : String)
deriving DecidableEq, Repr

/-- The message for a fault. -/
def CompileError.message : CompileError → String
  | .unknownCombinator symbol => "unknown combinator '" ++ symbol ++ "'"
  | .unknownPseudoClass name => "unknown pseudo-class ':" ++ name ++ "'"
  | .unknownOperator symbol => "unknown attribute operator '" ++ symbol ++ "'"
  | .invalidArguments name expected =>
    "invalid arguments for ':" ++ name ++ "()': " ++ expected.text
  | .anyNamespaceAttribute name =>
    "attribute selector '[*|" ++ name ++ "]' in any namespace is not supported yet"

end Selectors
