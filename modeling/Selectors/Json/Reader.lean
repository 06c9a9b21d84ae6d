import Selectors.Decimal.Binary
import Selectors.Json

/-!
Reading JSON text. `Json.value` reads one value from the start of a text and leaves what follows
it, so that the caller can look at the value before it looks for trailing characters.

Beyond the grammar there are three limits: arrays and objects nest at most `Json.depthLimit` deep,
a `\u` escape has to make a character (a surrogate only together with its partner), and a number
has to be finite in binary arithmetic (`Json.inRange`).
-/

namespace Selectors

namespace Json

/-- A value read from the start of a text, and the text left, which is shorter. -/
structure Read (α : Type) (cs : List Char) : Type where
  value : α
  rest : List Char
  lt : rest.length < cs.length

/-- How deep arrays and objects may nest. -/
def depthLimit : Nat := 127

/-- Skips the white space that may stand between the parts of a text. -/
def skipSpace (cs : List Char) : List Char :=
  cs.dropWhile fun c => c == ' ' || c == '\n' || c == '\t' || c == '\r'

theorem length_skipSpace_le (cs : List Char) : (skipSpace cs).length ≤ cs.length :=
  (List.dropWhile_sublist _).length_le

/-! ## Strings -/

/-- The value of a hexadecimal digit. -/
def hexDigit? (c : Char) : Option Nat :=
  if c.isDigit then some (c.toNat - '0'.toNat)
  else if 'a' ≤ c && c ≤ 'f' then some (c.toNat - 'a'.toNat + 10)
  else if 'A' ≤ c && c ≤ 'F' then some (c.toNat - 'A'.toNat + 10)
  else none

/-- Reads four hexadecimal digits. -/
def codeUnit? (cs : List Char) : Option (Read Nat cs) :=
  match cs with
  | a :: b :: c :: d :: rest =>
    match hexDigit? a, hexDigit? b, hexDigit? c, hexDigit? d with
    | some a, some b, some c, some d =>
      some ⟨((a * 16 + b) * 16 + c) * 16 + d, rest, by simp only [List.length_cons]; omega⟩
    | _, _, _, _ => none
  | _ => none

/-- Reads the character after `\u`: one code unit, or a leading surrogate and, escaped in the same
way, the trailing one that belongs to it. -/
def unicode? (cs : List Char) : Option (Read Char cs) :=
  match codeUnit? cs with
  | none => none
  | some lead =>
    if lead.value < 0xD800 || 0xE000 ≤ lead.value then
      some ⟨Char.ofNat lead.value, lead.rest, lead.lt⟩
    else if 0xDC00 ≤ lead.value then none
    else
      match h : lead.rest with
      | '\\' :: 'u' :: more =>
        match codeUnit? more with
        | none => none
        | some trail =>
          if 0xDC00 ≤ trail.value && trail.value < 0xE000 then
            some ⟨Char.ofNat (0x10000 + (lead.value - 0xD800) * 0x400 + (trail.value - 0xDC00)),
              trail.rest, by
                have h1 := lead.lt
                have h2 := trail.lt
                rw [h] at h1
                simp only [List.length_cons] at h1
                omega⟩
          else none
      | _ => none

/-- Reads what follows a backslash. -/
def escape? (cs : List Char) : Option (Read Char cs) :=
  match cs with
  | '"' :: rest => some ⟨'"', rest, by simp⟩
  | '\\' :: rest => some ⟨'\\', rest, by simp⟩
  | '/' :: rest => some ⟨'/', rest, by simp⟩
  | 'b' :: rest => some ⟨'\x08', rest, by simp⟩
  | 'f' :: rest => some ⟨'\x0c', rest, by simp⟩
  | 'n' :: rest => some ⟨'\n', rest, by simp⟩
  | 'r' :: rest => some ⟨'\r', rest, by simp⟩
  | 't' :: rest => some ⟨'\t', rest, by simp⟩
  | 'u' :: rest => (unicode? rest).map fun c => ⟨c.value, c.rest, Nat.lt_succ_of_lt c.lt⟩
  | _ => none

/-- Reads the characters of a string up to its closing quote. -/
def characters? (cs : List Char) : Option (Read (List Char) cs) :=
  match cs with
  | [] => none
  | '"' :: rest => some ⟨[], rest, by simp⟩
  | '\\' :: rest =>
    match escape? rest with
    | none => none
    | some c =>
      have := c.lt
      (characters? c.rest).map fun more =>
        ⟨c.value :: more.value, more.rest,
          Nat.lt_succ_of_lt (Nat.lt_trans more.lt c.lt)⟩
  | c :: rest =>
    if c.toNat < 0x20 then none
    else
      (characters? rest).map fun more =>
        ⟨c :: more.value, more.rest, Nat.lt_succ_of_lt more.lt⟩
termination_by cs.length

/-- Reads a string after its opening quote. -/
def string? (cs : List Char) : Option (Read String cs) :=
  (characters? cs).map fun s => ⟨String.ofList s.value, s.rest, s.lt⟩

/-! ## Numbers -/

/-- Takes digits into a number as long as it stays below two to the power 64. -/
def absorb (n : Nat) : List Char → Nat × List Char
  | [] => (n, [])
  | d :: ds =>
    let m := n * 10 + (d.toNat - '0'.toNat)
    if m < Nat.pow 2 64 then absorb m ds else (n, d :: ds)

/-- Whether a number is finite: its leading digits, as many as 64 bits hold, times the power of ten
that is left for them, each rounded to the binary format. The digits left out before the point
raise the power. -/
def inRange (whole places : List Char) (power : Int) : Bool :=
  let (n, left) := absorb 0 whole
  let (n, ignored) := absorb n places
  let exponent : Int := left.length - (places.length - ignored.length : Nat) + power
  n == 0 || exponent < 0 ||
    (exponent ≤ 308 && ((Magnitude.ofNat n).mul (Magnitude.ofNat (Nat.pow 10 exponent.toNat))).isFinite)

/-- Reads decimal digits, at least one. -/
def digits? (cs : List Char) : Option (Read (List Char) cs) :=
  match cs with
  | [] => none
  | c :: rest =>
    if c.isDigit then
      some ⟨c :: rest.takeWhile Char.isDigit, rest.dropWhile Char.isDigit,
        Nat.lt_succ_of_le (List.dropWhile_sublist _).length_le⟩
    else none

/-- Reads the digits before the point. A zero stands alone. -/
def whole? (cs : List Char) : Option (Read (List Char) cs) :=
  match digits? cs with
  | some d => if d.value.head? == some '0' && d.value.length != 1 then none else some d
  | none => none

/-- Reads the digits after a point, none where there is no point. -/
def places? (cs : List Char) : Option (List Char × { rest : List Char // rest.length ≤ cs.length }) :=
  match cs with
  | '.' :: rest =>
    (digits? rest).map fun d => (d.value, ⟨d.rest, Nat.le_succ_of_le (Nat.le_of_lt d.lt)⟩)
  | cs => some ([], ⟨cs, Nat.le_refl _⟩)

/-- Reads a sign before the digits of a power: whether it is a minus. -/
def powerSign (cs : List Char) : Bool × { rest : List Char // rest.length ≤ cs.length } :=
  match cs with
  | '+' :: rest => (false, ⟨rest, by simp⟩)
  | '-' :: rest => (true, ⟨rest, by simp⟩)
  | cs => (false, ⟨cs, Nat.le_refl _⟩)

/-- Reads the power of ten of a number, zero where there is none. -/
def power? (cs : List Char) : Option (Int × { rest : List Char // rest.length ≤ cs.length }) :=
  match cs with
  | [] => some (0, ⟨[], Nat.le_refl _⟩)
  | c :: rest =>
    if c == 'e' || c == 'E' then
      let (negative, digits) := powerSign rest
      (digits? digits.val).map fun d =>
        let n : Int := digitsValue d.value
        (if negative then -n else n, ⟨d.rest,
          Nat.le_succ_of_le (Nat.le_trans (Nat.le_of_lt d.lt) digits.property)⟩)
    else some (0, ⟨c :: rest, Nat.le_refl _⟩)

/-- Reads a number without its minus sign. -/
def unsigned? (negative : Bool) (cs : List Char) : Option (Read Decimal cs) :=
  match whole? cs with
  | none => none
  | some whole =>
    match places? whole.rest with
    | none => none
    | some (places, afterPlaces) =>
      match power? afterPlaces.val with
      | none => none
      | some (power, rest) =>
        if inRange whole.value places power then
          some ⟨⟨negative, digitsValue (whole.value ++ places), power - places.length⟩, rest.val,
            Nat.lt_of_le_of_lt (Nat.le_trans rest.property afterPlaces.property) whole.lt⟩
        else none

/-- Reads a number. -/
def number? (cs : List Char) : Option (Read Decimal cs) :=
  match cs with
  | '-' :: rest => (unsigned? true rest).map fun d => ⟨d.value, d.rest, Nat.lt_succ_of_lt d.lt⟩
  | cs => unsigned? false cs

/-! ## Values -/

/-- Reads a word that stands for a value. -/
def word? (cs : List Char) : Option (Read Json cs) :=
  match cs with
  | 'n' :: 'u' :: 'l' :: 'l' :: rest =>
    some ⟨.null, rest, by simp only [List.length_cons]; omega⟩
  | 't' :: 'r' :: 'u' :: 'e' :: rest =>
    some ⟨.bool true, rest, by simp only [List.length_cons]; omega⟩
  | 'f' :: 'a' :: 'l' :: 's' :: 'e' :: rest =>
    some ⟨.bool false, rest, by simp only [List.length_cons]; omega⟩
  | _ => none

mutual

/-- Reads a value that may hold arrays and objects nested `depth` deep. -/
def value? (depth : Nat) (cs : List Char) : Option (Read Json cs) :=
  have le := length_skipSpace_le cs
  match h : skipSpace cs with
  | '"' :: rest =>
    have lt : rest.length < cs.length := by rw [h, List.length_cons] at le; exact le
    (string? rest).map fun s => ⟨.string s.value, s.rest, Nat.lt_trans s.lt lt⟩
  | '[' :: rest =>
    have lt : rest.length < cs.length := by rw [h, List.length_cons] at le; exact le
    match depth with
    | 0 => none
    | depth + 1 =>
      have le := length_skipSpace_le rest
      match h : skipSpace rest with
      | ']' :: close =>
        some ⟨.array [], close, by rw [h, List.length_cons] at le; omega⟩
      | _ =>
        (items? depth rest).map fun items =>
          ⟨.array items.value, items.rest, Nat.lt_trans items.lt lt⟩
  | '\x7b' :: rest =>
    have lt : rest.length < cs.length := by rw [h, List.length_cons] at le; exact le
    match depth with
    | 0 => none
    | depth + 1 =>
      have le := length_skipSpace_le rest
      match h : skipSpace rest with
      | '\x7d' :: close =>
        some ⟨.object [], close, by rw [h, List.length_cons] at le; omega⟩
      | _ =>
        (members? depth rest).map fun members =>
          ⟨.object members.value, members.rest, Nat.lt_trans members.lt lt⟩
  | start =>
    match word? start with
    | some w => some ⟨w.value, w.rest, Nat.lt_of_lt_of_le w.lt (h ▸ le)⟩
    | none =>
      (number? start).map fun n => ⟨.number n.value, n.rest, Nat.lt_of_lt_of_le n.lt (h ▸ le)⟩
termination_by (cs.length, 0)

/-- Reads the items of an array, at least one, and its closing bracket. -/
def items? (depth : Nat) (cs : List Char) : Option (Read (List Json) cs) :=
  match value? depth cs with
  | none => none
  | some item =>
    have le := length_skipSpace_le item.rest
    have lt := item.lt
    match h : skipSpace item.rest with
    | ',' :: rest =>
      have lt : rest.length < cs.length := by rw [h, List.length_cons] at le; omega
      (items? depth rest).map fun more =>
        ⟨item.value :: more.value, more.rest, Nat.lt_trans more.lt lt⟩
    | ']' :: rest =>
      some ⟨[item.value], rest, by rw [h, List.length_cons] at le; omega⟩
    | _ => none
termination_by (cs.length, 1)

/-- Reads the members of an object, at least one, and its closing brace. -/
def members? (depth : Nat) (cs : List Char) : Option (Read (List (String × Json)) cs) :=
  have le := length_skipSpace_le cs
  match h : skipSpace cs with
  | '"' :: quoted =>
    match string? quoted with
    | none => none
    | some key =>
      have keyLt : key.rest.length < cs.length := by
        have := key.lt
        rw [h, List.length_cons] at le
        omega
      have le := length_skipSpace_le key.rest
      match h : skipSpace key.rest with
      | ':' :: afterColon =>
        have colonLt : afterColon.length < cs.length := by
          rw [h, List.length_cons] at le
          omega
        match value? depth afterColon with
        | none => none
        | some item =>
          have itemLt := item.lt
          have le := length_skipSpace_le item.rest
          match h : skipSpace item.rest with
          | ',' :: rest =>
            have lt : rest.length < cs.length := by rw [h, List.length_cons] at le; omega
            (members? depth rest).map fun more =>
              ⟨(key.value, item.value) :: more.value, more.rest, Nat.lt_trans more.lt lt⟩
          | '\x7d' :: rest =>
            some ⟨[(key.value, item.value)], rest, by rw [h, List.length_cons] at le; omega⟩
          | _ => none
      | _ => none
  | _ => none
termination_by (cs.length, 1)

end

/-- Reads the value at the start of a text: the value, and whether nothing but white space follows
it. -/
def read? (text : String) : Option (Json × Bool) :=
  (value? depthLimit text.toList).map fun v => (v.value, (skipSpace v.rest).isEmpty)

end Json

end Selectors
