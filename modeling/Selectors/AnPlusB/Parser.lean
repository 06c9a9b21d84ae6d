import Selectors.AnPlusB
import Selectors.Integer
import Selectors.Token

/-!
Reading `An+B` values from tokens. The notation does not follow token borders: `2n+1` is a
dimension and a signed number, `n-1` is one identifier, and `-n- 1` is an identifier, a blank and
a number. Letters count without their case.

`AnPlusB.parse?` accepts the whole list or nothing. Blanks are free except after a plus sign that
stands before the `n`.
-/

namespace Selectors

namespace AnPlusB

/-- The digits at the end of `n-` followed by digits, as the offset they stand for. -/
def dashOffset? : List Char → Option Int64
  | 'n' :: '-' :: digits =>
    if !digits.isEmpty && digits.all Char.isDigit then
      (int64? (digitsValue digits)).map (fun b => -b)
    else none
  | _ => none

/-- The offset after a sign that stands apart from it: one integer without a sign of its own. -/
def afterSign (step : Int64) (minus : Bool) : List Token → Option AnPlusB
  | [.number n] =>
    if n.signed then none
    else n.integer?.map fun b => ⟨step, if minus then -b else b⟩
  | _ => none

/-- What may follow the `n`: nothing, a sign and an integer, or an integer with a sign. -/
def afterN (step : Int64) : List Token → Option AnPlusB
  | [] => some ⟨step, 0⟩
  | .delim '+' :: rest => afterSign step false rest
  | .delim '-' :: rest => afterSign step true rest
  | [.number n] => if n.signed then n.integer?.map fun b => ⟨step, b⟩ else none
  | _ => none

/-- A value whose step is known: `unit` is the `n` with what is written on to it, and `rest` the
tokens that follow, blanks left out. -/
def withStep (step : Int64) (unit : List Char) (rest : List Token) : Option AnPlusB :=
  match unit with
  | ['n'] => afterN step rest
  | ['n', '-'] => afterSign step true rest
  | unit =>
    if rest.isEmpty then (dashOffset? unit).map fun b => ⟨step, b⟩ else none

/-- A value that starts with an identifier: a keyword, or an `n` with at most a minus sign. -/
def ofIdent (name : List Char) (rest : List Token) : Option AnPlusB :=
  match name with
  | ['e', 'v', 'e', 'n'] => if rest.isEmpty then some ⟨2, 0⟩ else none
  | ['o', 'd', 'd'] => if rest.isEmpty then some ⟨2, 1⟩ else none
  | '-' :: unit => withStep (-1) unit rest
  | unit => withStep 1 unit rest

/-- Tokens without the blanks among them. -/
def solid (tokens : List Token) : List Token := tokens.filter (· != .blank)

/-- The value that a list of tokens is, if it is one. -/
def parse? (tokens : List Token) : Option AnPlusB :=
  match skipBlanks tokens with
  | .number n :: rest =>
    if (solid rest).isEmpty then n.integer?.map fun b => ⟨0, b⟩ else none
  | .dimension n unit :: rest =>
    n.integer?.bind fun a => withStep a unit.toLower.toList (solid rest)
  | .ident name :: rest => ofIdent name.toLower.toList (solid rest)
  | .delim '+' :: .ident name :: rest => withStep 1 name.toLower.toList (solid rest)
  | _ => none

end AnPlusB

end Selectors
