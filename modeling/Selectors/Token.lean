import Selectors.Decimal.Shortest

/-!
The tokens of selector text. They are the part of the token vocabulary of style sheets that a
selector can contain; every token list that the lexer makes ends with `Token.eof`.

`Token.text` is how a token is shown in messages and answers.
-/

namespace Selectors

/-- Whether the text after a `#` is an identifier, so that it can name an element. -/
inductive HashKind : Type where
  | id
  | unrestricted
deriving DecidableEq, Repr

/-- The number in a number, percentage or dimension token. -/
structure Numeric : Type where
  /-- The number as written. -/
  value : Decimal
  /-- Its value as a 64-bit integer, if it is written without fraction and exponent and fits. -/
  integer? : Option Int64
  /-- It is written with a sign. -/
  signed : Bool
deriving DecidableEq

/-- One lexical unit of selector text. Names and strings are held with their escapes resolved. -/
inductive Token : Type where
  | ident (name : String)
  /-- A name followed at once by an opening parenthesis, which belongs to the token. -/
  | function (name : String)
  | atKeyword (name : String)
  | hash (value : String) (kind : HashKind)
  | string (value : String)
  /-- A string that a line break cut short. -/
  | badString
  /-- A character that starts nothing else. -/
  | delim (c : Char)
  | number (n : Numeric)
  | percentage (n : Numeric)
  | dimension (n : Numeric) (unit : String)
  /-- A run of blank characters. -/
  | blank
  | colon
  | semicolon
  | comma
  | leftBracket
  | rightBracket
  | leftParen
  | rightParen
  | leftBrace
  | rightBrace
  /-- The end of the text. -/
  | eof
deriving DecidableEq

instance : Inhabited Token := ⟨.eof⟩

/-- The word for a hash kind. -/
def HashKind.text : HashKind → String
  | .id => "id"
  | .unrestricted => "unrestricted"

/-- The text that stands for a token in a message. -/
def Token.text : Token → String
  | .ident name => "<ident:" ++ name ++ ">"
  | .function name => "<function:" ++ name ++ "(>"
  | .atKeyword name => "<at-keyword:@" ++ name ++ ">"
  | .hash value kind => "<hash:#" ++ value ++ " (" ++ kind.text ++ ")>"
  | .string value => "<string:\"" ++ value ++ "\">"
  | .badString => "<bad-string>"
  | .delim c => "<delim:" ++ c.toString ++ ">"
  | .number n => "<number:" ++ n.value.text ++ ">"
  | .percentage n => "<percentage:" ++ n.value.text ++ "%>"
  | .dimension n unit => "<dimension:" ++ n.value.text ++ unit ++ ">"
  | .blank => "<whitespace>"
  | .colon => "<colon>"
  | .semicolon => "<semicolon>"
  | .comma => "<comma>"
  | .leftBracket => "<[>"
  | .rightBracket => "<]>"
  | .leftParen => "<(>"
  | .rightParen => "<)>"
  | .leftBrace => "<\x7b>"
  | .rightBrace => "<\x7d>"
  | .eof => "<EOF>"

/-- The tokens from the first one on that is not blank. -/
def skipBlanks (tokens : List Token) : List Token := tokens.dropWhile (· == .blank)

theorem length_skipBlanks_le (tokens : List Token) :
    (skipBlanks tokens).length ≤ tokens.length :=
  (List.dropWhile_sublist _).length_le

end Selectors
