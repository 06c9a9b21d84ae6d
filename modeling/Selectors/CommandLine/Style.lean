/-!
Styles of text on a terminal. A style is a pair of escape sequences: one switches it on, the other
one ends it.
-/

namespace Selectors

namespace CommandLine

/-- A text between the sequence that switches a style on and the one that ends it. -/
def styled (on off : Nat) (text : String) : String :=
  "\x1b[" ++ toString on ++ "m" ++ text ++ "\x1b[" ++ toString off ++ "m"

/-- Bold text. -/
def bold : String → String := styled 1 0

/-- Faint text. -/
def dimmed : String → String := styled 2 0

/-- Red text. -/
def red : String → String := styled 31 39

/-- Green text. -/
def green : String → String := styled 32 39

/-- Yellow text. -/
def yellow : String → String := styled 33 39

/-- Cyan text. -/
def cyan : String → String := styled 36 39

end CommandLine

end Selectors
