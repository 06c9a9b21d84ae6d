import Selectors.Text
import Selectors.Integer
import Selectors.Token

/-!
Cutting selector text into tokens.

Line breaks are first made uniform (`normalize`). Comments before a token are then skipped, and
`lexeme` reads the one token that starts with the given character. Every text has a token list:
a text that ends inside a string, a comment or an escape is read as if it were closed there, and
a character that starts nothing is a token of its own. `scan` ends because each token takes at
least one character (`length_lexeme_le`).
-/

namespace Selectors

namespace Lexer

/-! ## Characters -/

/-- Makes line breaks uniform: a carriage return, with the line feed after it if there is one, and
a form feed become a line feed. The null character becomes the replacement character. -/
def normalize : List Char → List Char
  | [] => []
  | '\r' :: '\n' :: cs => '\n' :: normalize cs
  | c :: cs =>
    (if c == '\r' || c == '\x0c' then '\n' else if c == '\x00' then '\ufffd' else c) ::
      normalize cs

/-- An ASCII letter, an underscore, or any character beyond ASCII. -/
def isNameStart (c : Char) : Bool := c.isAlpha || c == '_' || 128 ≤ c.toNat

/-- A character that a name goes on with: one that can start it, a digit or a hyphen. -/
def isNameChar (c : Char) : Bool := isNameStart c || c.isDigit || c == '-'

/-- A hexadecimal digit in either case. -/
def isHexDigit (c : Char) : Bool :=
  c.isDigit || ('a' ≤ c && c ≤ 'f') || ('A' ≤ c && c ≤ 'F')

/-- The value of a hexadecimal digit. -/
def hexDigitValue (c : Char) : Nat :=
  if c.isDigit then c.toNat - '0'.toNat
  else if 'a' ≤ c then c.toNat - 'a'.toNat + 10
  else c.toNat - 'A'.toNat + 10

/-! ## What a text starts with -/

/-- A backslash that is not followed by a line break. At the end of the text it counts too. -/
def startsEscape : List Char → Bool
  | '\\' :: '\n' :: _ => false
  | '\\' :: _ => true
  | _ => false

/-- A name: after at most one hyphen a character that can start a name or an escape, or two
hyphens. -/
def startsName : List Char → Bool
  | '-' :: c :: cs => isNameStart c || c == '-' || startsEscape (c :: cs)
  | c :: cs => isNameStart c || startsEscape (c :: cs)
  | [] => false

/-- A decimal digit. -/
def startsDigit : List Char → Bool
  | c :: _ => c.isDigit
  | [] => false

/-- A point with a digit after it. -/
def startsFraction : List Char → Bool
  | '.' :: cs => startsDigit cs
  | _ => false

/-- A number: after at most one sign a digit, or a point with a digit after it. -/
def startsNumber : List Char → Bool
  | '+' :: cs => startsDigit cs || startsFraction cs
  | '-' :: cs => startsDigit cs || startsFraction cs
  | cs => startsDigit cs || startsFraction cs

/-! ## Escapes and names -/

/-- The character with a code written in hexadecimal. Zero, a surrogate and a code beyond the last
character all give the replacement character. -/
def codePoint (digits : List Char) : Char :=
  let c := Char.ofNat (digits.foldl (fun n d => n * 16 + hexDigitValue d) 0)
  if c == '\x00' then '\ufffd' else c

/-- Drops one blank character, if there is one. -/
def dropBlank : List Char → List Char
  | c :: cs => if isBlank c then cs else c :: cs
  | [] => []

/-- Reads what follows a backslash: up to six hexadecimal digits and one blank character after
them, or any other single character, which stands for itself. -/
def escape : List Char → Char × List Char
  | [] => ('\ufffd', [])
  | c :: cs =>
    if isHexDigit c then
      let more := (cs.take 5).takeWhile isHexDigit
      (codePoint (c :: more), dropBlank (cs.drop more.length))
    else (c, cs)

theorem length_dropBlank_le (cs : List Char) : (dropBlank cs).length ≤ cs.length := by
  cases cs with
  | nil => simp [dropBlank]
  | cons c cs => simp only [dropBlank]; split <;> simp

theorem length_escape_le (cs : List Char) : (escape cs).2.length ≤ cs.length := by
  cases cs with
  | nil => simp [escape]
  | cons c cs =>
    simp only [escape]
    split
    · have := length_dropBlank_le (cs.drop ((cs.take 5).takeWhile isHexDigit).length)
      simp only [List.length_drop] at this
      simp only [List.length_cons]
      omega
    · simp

/-- Reads name characters and escapes as far as they go. -/
def name : List Char → List Char × List Char
  | [] => ([], [])
  | c :: cs =>
    if isNameChar c then
      (c :: (name cs).1, (name cs).2)
    else if startsEscape (c :: cs) then
      ((escape cs).1 :: (name (escape cs).2).1, (name (escape cs).2).2)
    else ([], c :: cs)
termination_by cs => cs.length
decreasing_by
  · simp
  · exact Nat.lt_succ_of_le (length_escape_le cs)

theorem length_name_le (cs : List Char) : (name cs).2.length ≤ cs.length := by
  fun_induction name cs with
  | case1 => simp
  | case2 c cs _ ih => simp only [List.length_cons]; omega
  | case3 c cs _ _ ih =>
    have := length_escape_le cs
    simp only [List.length_cons]
    omega
  | case4 => simp

/-- A name that has started takes at least one character. -/
theorem length_name_cons_le {c : Char} {cs : List Char} (h : startsName (c :: cs) = true) :
    (name (c :: cs)).2.length ≤ cs.length := by
  rw [name]
  split
  · exact length_name_le cs
  · rename_i hc
    split
    · exact Nat.le_trans (length_name_le _) (length_escape_le cs)
    · rename_i he
      simp only [isNameChar, Bool.or_eq_true, not_or, Bool.not_eq_true, beq_eq_false_iff_ne] at hc
      unfold startsName at h
      split at h
      · simp_all
      · simp_all
      · simp_all

/-- Reads a name as an identifier, or as a function if an opening parenthesis follows at once. -/
def identLike (cs : List Char) : Token × List Char :=
  match name cs with
  | (n, '(' :: rest) => (.function (String.ofList n), rest)
  | (n, rest) => (.ident (String.ofList n), rest)

/-! ## Strings -/

/-- Reads up to the closing quote or the end of the text. A line break gives no value and is left
to be read; a backslash before a line break drops both, one at the end of the text is dropped. -/
def stringBody (quote : Char) : List Char → Option (List Char) × List Char
  | [] => (some [], [])
  | c :: cs =>
    if c == quote then (some [], cs)
    else if c == '\n' then (none, c :: cs)
    else if c == '\\' then
      match cs with
      | [] => (some [], [])
      | d :: ds =>
        if d == '\n' then stringBody quote ds
        else
          ((stringBody quote (escape (d :: ds)).2).1.map ((escape (d :: ds)).1 :: ·),
            (stringBody quote (escape (d :: ds)).2).2)
    else ((stringBody quote cs).1.map (c :: ·), (stringBody quote cs).2)
termination_by cs => cs.length
decreasing_by
  · simp only [List.length_cons]; omega
  · exact Nat.lt_succ_of_le (length_escape_le _)
  · simp

theorem length_stringBody_le (quote : Char) (cs : List Char) :
    (stringBody quote cs).2.length ≤ cs.length := by
  fun_induction stringBody quote cs with
  | case1 => simp
  | case2 => simp
  | case3 => simp
  | case4 => simp
  | case5 c _ _ _ d ds _ ih => simp only [List.length_cons]; omega
  | case6 c _ _ _ d ds _ ih =>
    have := length_escape_le (d :: ds)
    simp only [List.length_cons] at this ⊢
    omega
  | case7 c cs _ _ _ ih => simp only [List.length_cons]; omega

/-- The token of a string after its opening quote. -/
def stringToken (quote : Char) (cs : List Char) : Token × List Char :=
  match stringBody quote cs with
  | (some value, rest) => (.string (String.ofList value), rest)
  | (none, rest) => (.badString, rest)

/-! ## Numbers -/

/-- Reads a sign: whether it is a minus, and nothing if there is no sign. -/
def sign : List Char → Option Bool × List Char
  | '+' :: cs => (some false, cs)
  | '-' :: cs => (some true, cs)
  | cs => (none, cs)

/-- Reads decimal digits. -/
def digits (cs : List Char) : List Char × List Char :=
  (cs.takeWhile Char.isDigit, cs.dropWhile Char.isDigit)

/-- Reads the digits of a fraction, none if there is no fraction. -/
def fraction (cs : List Char) : List Char × List Char :=
  if startsFraction cs then digits cs.tail else ([], cs)

/-- Reads the power of ten of a number, if there is one: the letter, a sign and digits. -/
def power : List Char → Option Int × List Char
  | c :: cs =>
    if (c == 'e' || c == 'E') && startsDigit (sign cs).2 then
      let n : Int := digitsValue (digits (sign cs).2).1
      (some (if (sign cs).1 = some true then -n else n), (digits (sign cs).2).2)
    else (none, c :: cs)
  | [] => (none, [])

/-- Reads a number. It is an integer if it has neither fraction nor power. -/
def number (cs : List Char) : Numeric × List Char :=
  let (negative, cs) := sign cs
  let (whole, cs) := digits cs
  let (places, cs) := fraction cs
  let (exponent, cs) := power cs
  let minus := negative == some true
  let coefficient := digitsValue (whole ++ places)
  ({ value := ⟨minus, coefficient, exponent.getD 0 - places.length⟩
     integer? :=
      if places.isEmpty && exponent.isNone then
        int64? (if minus then -(coefficient : Int) else coefficient)
      else none
     signed := negative.isSome }, cs)

/-- Reads a number and the unit or percent sign that follows it at once. -/
def numeric (cs : List Char) : Token × List Char :=
  let (n, rest) := number cs
  if startsName rest then (.dimension n (String.ofList (name rest).1), (name rest).2)
  else
    match rest with
    | '%' :: rest => (.percentage n, rest)
    | rest => (.number n, rest)

theorem length_sign_le (cs : List Char) : (sign cs).2.length ≤ cs.length := by
  unfold sign
  split <;> simp

theorem length_digits_le (cs : List Char) : (digits cs).2.length ≤ cs.length :=
  (List.dropWhile_sublist _).length_le

theorem length_digits_lt {cs : List Char} (h : startsDigit cs = true) :
    (digits cs).2.length < cs.length := by
  cases cs with
  | nil => simp [startsDigit] at h
  | cons c cs =>
    simp only [startsDigit] at h
    simp only [digits, h, List.dropWhile_cons_of_pos, List.length_cons]
    exact Nat.lt_succ_of_le (List.dropWhile_sublist _).length_le

theorem length_fraction_le (cs : List Char) : (fraction cs).2.length ≤ cs.length := by
  unfold fraction
  split
  · exact Nat.le_trans (length_digits_le _) (by simp)
  · exact Nat.le_refl _

theorem length_fraction_lt {cs : List Char} (h : startsFraction cs = true) :
    (fraction cs).2.length < cs.length := by
  cases cs with
  | nil => simp [startsFraction] at h
  | cons c cs =>
    simp only [fraction, h, if_true, List.tail_cons, List.length_cons]
    exact Nat.lt_succ_of_le (length_digits_le cs)

theorem length_power_le (cs : List Char) : (power cs).2.length ≤ cs.length := by
  cases cs with
  | nil => simp [power]
  | cons c cs =>
    simp only [power]
    split
    · have := length_digits_le (sign cs).2
      have := length_sign_le cs
      simp only [List.length_cons]
      omega
    · simp

/-- A number that has started takes at least one character. -/
theorem length_number_lt {cs : List Char} (h : startsNumber cs = true) :
    (number cs).2.length < cs.length := by
  have start : (startsDigit (sign cs).2 || startsFraction (sign cs).2) = true := by
    unfold startsNumber at h
    split at h
    · exact h
    · exact h
    · rename_i plus minus
      have : sign cs = (none, cs) := by
        unfold sign
        split
        · exact absurd rfl (plus _)
        · exact absurd rfl (minus _)
        · rfl
      rw [this]
      exact h
  show (power (fraction (digits (sign cs).2).2).2).2.length < cs.length
  have h1 := length_power_le (fraction (digits (sign cs).2).2).2
  have h2 := length_fraction_le (digits (sign cs).2).2
  have h3 := length_sign_le cs
  by_cases hd : startsDigit (sign cs).2 = true
  · have := length_digits_lt hd
    omega
  · have hf : startsFraction (sign cs).2 = true := by simpa [hd] using start
    have same : (digits (sign cs).2).2 = (sign cs).2 := by
      cases hs : (sign cs).2 with
      | nil => simp [digits]
      | cons c rest =>
        rw [hs] at hd
        simp only [startsDigit] at hd
        simp [digits, hd]
    rw [same] at h1 h2 ⊢
    have := length_fraction_lt hf
    omega

theorem length_numeric_lt {cs : List Char} (h : startsNumber cs = true) :
    (numeric cs).2.length < cs.length := by
  have := length_number_lt h
  simp only [numeric]
  split
  · exact Nat.lt_of_le_of_lt (length_name_le _) this
  · split
    · rename_i heq
      simp only [heq, List.length_cons] at this
      exact Nat.lt_of_succ_lt this
    · exact this

/-! ## Tokens -/

/-- The token that is made of one character and never starts anything longer. -/
def punctuation? : Char → Option Token
  | '(' => some .leftParen
  | ')' => some .rightParen
  | '[' => some .leftBracket
  | ']' => some .rightBracket
  | '\x7b' => some .leftBrace
  | '\x7d' => some .rightBrace
  | ',' => some .comma
  | ':' => some .colon
  | ';' => some .semicolon
  | _ => none

/-- Reads a hash after its number sign. -/
def hash (cs : List Char) : Token × List Char :=
  if cs.head?.any isNameChar || startsEscape cs then
    (.hash (String.ofList (name cs).1) (if startsName cs then .id else .unrestricted),
      (name cs).2)
  else (.delim '#', cs)

/-- Reads the token that starts with the character `c`, which `cs` follows. -/
def lexeme (c : Char) (cs : List Char) : Token × List Char :=
  if isBlank c then (.blank, cs.dropWhile isBlank)
  else if c == '"' || c == '\x27' then stringToken c cs
  else if c == '#' then hash cs
  else
    match punctuation? c with
    | some token => (token, cs)
    | none =>
      if startsNumber (c :: cs) then numeric (c :: cs)
      else if c == '@' && startsName cs then
        (.atKeyword (String.ofList (name cs).1), (name cs).2)
      else if startsName (c :: cs) then identLike (c :: cs)
      else (.delim c, cs)

/-- Reading a token takes its first character at least. -/
theorem length_lexeme_le (c : Char) (cs : List Char) : (lexeme c cs).2.length ≤ cs.length := by
  unfold lexeme
  split
  · exact (List.dropWhile_sublist _).length_le
  split
  · have := length_stringBody_le c cs
    unfold stringToken
    split <;> rename_i heq <;> simpa [heq] using this
  split
  · unfold hash
    split
    · exact length_name_le cs
    · exact Nat.le_refl _
  split
  · exact Nat.le_refl _
  split
  · rename_i h
    have := length_numeric_lt h
    simp only [List.length_cons] at this
    omega
  split
  · exact length_name_le cs
  split
  · rename_i h
    have := length_name_cons_le h
    unfold identLike
    split <;> rename_i heq <;> simp only [heq, List.length_cons] at this ⊢ <;> omega
  · exact Nat.le_refl _

/-! ## Comments and the whole text -/

/-- What follows the end of a comment, nothing if the comment does not end. -/
def afterComment : List Char → List Char
  | '*' :: '/' :: cs => cs
  | _ :: cs => afterComment cs
  | [] => []

theorem length_afterComment_le (cs : List Char) : (afterComment cs).length ≤ cs.length := by
  fun_induction afterComment cs with
  | case1 => simp only [List.length_cons]; omega
  | case2 _ _ _ ih => simp only [List.length_cons]; omega
  | case3 => simp

/-- Skips the comments at the start of a text. -/
def skipComments : List Char → List Char
  | '/' :: '*' :: cs => skipComments (afterComment cs)
  | cs => cs
termination_by cs => cs.length
decreasing_by
  have := length_afterComment_le cs
  simp only [List.length_cons]
  omega

theorem length_skipComments_le (cs : List Char) : (skipComments cs).length ≤ cs.length := by
  fun_induction skipComments cs with
  | case1 cs ih =>
    have := length_afterComment_le cs
    simp only [List.length_cons]
    omega
  | case2 => simp

/-- All tokens of a text whose line breaks are uniform. -/
def scan (cs : List Char) : List Token :=
  match _h : skipComments cs with
  | [] => [.eof]
  | c :: rest => (lexeme c rest).1 :: scan (lexeme c rest).2
termination_by cs.length
decreasing_by
  have h1 := length_lexeme_le c rest
  have h2 := length_skipComments_le cs
  rw [_h, List.length_cons] at h2
  omega

end Lexer

/-- The tokens of a text, the last of which is the end of the text. -/
def tokenize (text : String) : List Token := Lexer.scan (Lexer.normalize text.toList)

end Selectors
