import Selectors.Proofs.AnPlusB
import Selectors.Proofs.Digits
import Selectors.Proofs.Places

/-!
Spellings of one `An+B` value. Between the `n` and the digits of the offset stands its sign, with or
without a blank on either side. The four texts have tokens of four different shapes: the sign is part
of a number, a token of its own, or written on to the `n`, and then the digits may be too.

They are all read as the value that they spell, with one exception (`parse?_tokenize_spelling`). The
least offset is found only where the sign is part of its number. Where the digits are read without it
they go one beyond the greatest integer.
-/

namespace Selectors

/-! ## Numbers as they are written -/

namespace Lexer

/-- The characters of a sign: whether it is a minus, and nothing if there is no sign. -/
def signText : Option Bool → List Char
  | none => []
  | some false => ['+']
  | some true => ['-']

/-- The number that is written with a sign and digits. -/
def writtenNumber (sign? : Option Bool) (ds : List Char) : Numeric where
  value := ⟨sign? == some true, digitsValue ds, 0⟩
  integer? := int64? (if sign? == some true then -(digitsValue ds : Int) else digitsValue ds)
  signed := sign?.isSome

/-- A text with which no number goes on. -/
def EndsNumber (rest : List Char) : Prop :=
  ∀ c ∈ rest.head?, c.isDigit = false ∧ c ∉ ['.', 'e', 'E']

section Numbers

variable {sign? : Option Bool} {d : Char} {ds rest : List Char}
  (allDigits : ∀ c ∈ d :: ds, c.isDigit = true) (ends : EndsNumber rest)
include allDigits

theorem sign_written : sign (signText sign? ++ (d :: ds ++ rest)) = (sign?, d :: ds ++ rest) := by
  have digit := allDigits d List.mem_cons_self
  rcases sign? with _ | _ | _
  · have noPlus : d ≠ '+' := fun same => absurd (same ▸ digit) (by decide)
    have noMinus : d ≠ '-' := fun same => absurd (same ▸ digit) (by decide)
    simp [signText, sign, noPlus, noMinus]
  · rfl
  · rfl

include ends

theorem digits_written : digits (d :: ds ++ rest) = (d :: ds, rest) := by
  have stops : rest.takeWhile Char.isDigit = [] ∧ rest.dropWhile Char.isDigit = rest := by
    cases rest with
    | nil => exact ⟨rfl, rfl⟩
    | cons c rest =>
      have noDigit := (ends c rfl).1
      simp [noDigit]
  rw [digits, List.takeWhile_append_of_pos allDigits, List.dropWhile_append_of_pos allDigits,
    stops.1, stops.2, List.append_nil]

omit allDigits in
theorem fraction_ends : fraction rest = ([], rest) := by
  cases rest with
  | nil => rfl
  | cons c rest =>
    have noPoint : c ≠ '.' := fun same => (ends c rfl).2 (by simp [same])
    simp [fraction, startsFraction, noPoint]

omit allDigits in
theorem power_ends : power rest = (none, rest) := by
  cases rest with
  | nil => rfl
  | cons c rest =>
    have noLetter := (ends c rfl).2
    simp only [List.mem_cons, not_or] at noLetter
    simp [power, noLetter]

/-- A sign and digits are read as one number, which is an integer if 64 bits hold it. -/
theorem number_written :
    number (signText sign? ++ (d :: ds ++ rest)) = (writtenNumber sign? (d :: ds), rest) := by
  simp only [number, sign_written allDigits, digits_written allDigits ends, fraction_ends ends,
    power_ends ends, List.append_nil]
  rfl

end Numbers

section Tokens

variable {sign? : Option Bool} {d : Char} {ds rest : List Char}

theorem isNameChar_of_isDigit {c : Char} (digit : c.isDigit = true) : isNameChar c = true := by
  simp [isNameChar, digit]

theorem isBlank_of_isDigit {c : Char} (digit : c.isDigit = true) : isBlank c = false :=
  Bool.not_eq_true _ ▸ (Loose.of_isNameChar (isNameChar_of_isDigit digit)).blank

theorem scan_blank (solid : rest.head?.all (fun c => !isBlank c) = true) :
    scan (' ' :: rest) = .blank :: scan rest := by
  have stops : rest.dropWhile isBlank = rest := by
    cases rest with
    | nil => rfl
    | cons c rest => exact List.dropWhile_cons_of_neg (by simpa using solid)
  rw [scan_cons_of_ne (by decide), lexeme, if_pos (by decide), stops]

/-- A sign with a blank behind it stands for itself. -/
theorem scan_sign_apart (minus : Bool) :
    scan ((if minus then '-' else '+') :: ' ' :: rest) =
      .delim (if minus then '-' else '+') :: scan (' ' :: rest) := by
  cases minus <;> rw [scan_cons_of_ne (by decide)] <;> rfl

variable (allDigits : ∀ c ∈ d :: ds, c.isDigit = true)
include allDigits

theorem startsNumber_written :
    startsNumber (signText sign? ++ (d :: ds ++ rest)) = true := by
  have digit : startsDigit (d :: ds ++ rest) = true := allDigits d List.mem_cons_self
  rw [startsNumber_eq, sign_written allDigits, digit, Bool.true_or]

/-- A sign and digits are read by `numeric`. -/
theorem scan_written : scan (signText sign? ++ (d :: ds ++ rest)) =
    (numeric (signText sign? ++ (d :: ds ++ rest))).1 ::
      scan (numeric (signText sign? ++ (d :: ds ++ rest))).2 := by
  have isNumber := @startsNumber_written sign? d ds rest allDigits
  have named {c : Char} {cs : List Char} (starts : startsNumber (c :: cs) = true)
      (loose : Loose c) (noSlash : c ≠ '/') : scan (c :: cs) =
      (numeric (c :: cs)).1 :: scan (numeric (c :: cs)).2 := by
    rw [scan_cons_of_ne noSlash, loose.lexeme_number starts]
  have digit := allDigits d List.mem_cons_self
  rcases sign? with _ | _ | _
  · exact named isNumber (.of_isNameChar (isNameChar_of_isDigit digit))
      fun slash => absurd (slash ▸ digit) (by decide)
  · exact named isNumber ⟨by decide, by decide, by decide, rfl⟩ (by decide)
  · exact named isNumber ⟨by decide, by decide, by decide, rfl⟩ (by decide)

/-- A number with an `n` right behind it is the number of a dimension. -/
theorem scan_dimension : scan (signText sign? ++ (d :: ds ++ 'n' :: rest)) =
    .dimension (writtenNumber sign? (d :: ds)) (String.ofList ('n' :: (name rest).1)) ::
      scan (name rest).2 := by
  have ends : EndsNumber ('n' :: rest) := by
    rintro _ ⟨⟩
    exact ⟨by decide, by decide⟩
  have read := @number_written sign? d ds ('n' :: rest) allDigits ends
  have unit : startsName ('n' :: rest) = true := rfl
  rw [scan_written allDigits, numeric_unit (by rw [read]; exact unit), read, name_char (by decide)]

/-- A number at the end of the text. -/
theorem scan_number :
    scan (signText sign? ++ d :: ds) = [.number (writtenNumber sign? (d :: ds)), .eof] := by
  have ends : EndsNumber [] := nofun
  have read := @number_written sign? d ds [] allDigits ends
  have written := @scan_written sign? d ds [] allDigits
  rw [List.append_nil] at read written
  rw [written, numeric_plain (by rw [read]; exact Bool.false_ne_true) (by rw [read]; nofun), read,
    scan_nil skipComments_nil]

end Tokens

end Lexer

/-! ## Signs and their blanks -/

namespace AnPlusB

open Lexer

/-- A value as it is written with a sign in front of the digits of its offset, and with a blank
before or after the sign, or both, or none. -/
def spelling (p : AnPlusB) (before after : Bool) : String :=
  toString p.step.toInt ++ "n" ++ (if before then " " else "") ++
    (if p.offset.toInt < 0 then "-" else "+") ++ (if after then " " else "") ++
      toString p.offset.toInt.natAbs

/-- The characters of a sign and digits, with blanks before and after the sign. -/
def offsetText (minus before after : Bool) (ds : List Char) : List Char :=
  (if before then [' '] else []) ++ (if minus then '-' else '+') ::
    ((if after then [' '] else []) ++ ds)

theorem toList_spelling (p : AnPlusB) (before after : Bool) :
    (p.spelling before after).toList =
      signText (if p.step.toInt < 0 then some true else none) ++
        (Nat.toDigits 10 p.step.toInt.natAbs ++ 'n' ::
          offsetText (decide (p.offset.toInt < 0)) before after
            (Nat.toDigits 10 p.offset.toInt.natAbs)) := by
  have digits (n : Nat) : (toString n).toList = Nat.toDigits 10 n := by simp
  have minus : (if p.offset.toInt < 0 then "-" else "+").toList =
      [if decide (p.offset.toInt < 0) = true then '-' else '+'] := by
    split <;> simp_all
  have blank (flag : Bool) : (if flag then " " else "").toList = if flag then [' '] else [] := by
    cases flag <;> rfl
  have first : (if p.step.toInt < 0 then ['-'] else []) =
      signText (if p.step.toInt < 0 then some true else none) := by
    split <;> rfl
  simp only [spelling, String.toList_append, toList_toString_int, digits, minus, blank, first,
    offsetText, List.append_assoc]
  rfl

section Offsets

variable {minus before after : Bool} {d : Char} {ds : List Char}
  (allDigits : ∀ c ∈ d :: ds, c.isDigit = true)
include allDigits

theorem scan_offsetText : scan (offsetText minus before after (d :: ds)) =
    (if before then [.blank] else []) ++
      ((if after then [.delim (if minus then '-' else '+'), .blank,
          .number (writtenNumber none (d :: ds))]
        else [.number (writtenNumber (some minus) (d :: ds))]) ++ [.eof]) := by
  have digit := isBlank_of_isDigit (allDigits d List.mem_cons_self)
  have behind : scan ((if minus then '-' else '+') :: ((if after then [' '] else []) ++ d :: ds)) =
      (if after then [.delim (if minus then '-' else '+'), .blank,
          .number (writtenNumber none (d :: ds))]
        else [.number (writtenNumber (some minus) (d :: ds))]) ++ [.eof] := by
    cases after with
    | true =>
      have plain := @scan_number none d ds allDigits
      rw [if_pos rfl, if_pos rfl, List.singleton_append, scan_sign_apart,
        scan_blank (by simp [digit])]
      exact congrArg _ (congrArg _ plain)
    | false =>
      have signed := @scan_number (some minus) d ds allDigits
      cases minus <;> exact signed
  cases before with
  | false => exact behind
  | true =>
    have solid : isBlank (if minus then '-' else '+') = false := by cases minus <;> rfl
    rw [offsetText, if_pos rfl, List.singleton_append, scan_blank (by simp [solid]), behind,
      if_pos rfl, List.singleton_append]

omit allDigits in
/-- A blank or a plus sign ends the `n`. -/
theorem name_offsetText (apart : before = true ∨ minus = false) :
    name (offsetText minus before after ds) = ([], offsetText minus before after ds) := by
  rcases apart with rfl | rfl
  · exact name_stop (by decide) Bool.false_ne_true
  · cases before <;> exact name_stop (by decide) Bool.false_ne_true

/-- A hyphen is written on to the `n`, and so are the digits right behind it. -/
theorem name_offsetText_hyphen : name (offsetText true false after (d :: ds)) =
    if after then (['-'], ' ' :: d :: ds) else ('-' :: d :: ds, []) := by
  cases after with
  | true =>
    have stops : name (' ' :: d :: ds) = ([], ' ' :: d :: ds) :=
      name_stop (by decide) Bool.false_ne_true
    have hyphen : name ('-' :: ' ' :: d :: ds) = _ := name_char (by decide)
    rw [stops] at hyphen
    exact hyphen
  | false =>
    have named : ∀ c ∈ '-' :: d :: ds, isNameChar c = true :=
      List.forall_mem_cons.2 ⟨by decide, fun c member => isNameChar_of_isDigit (allDigits c member)⟩
    have read := name_append named []
    rwa [List.append_nil, name_nil, List.append_nil] at read

/-- The offset that is read where the sign is part of its number, and where it is not. -/
def readOffset (minus joined : Bool) (m : Nat) : Option Int64 :=
  if joined then int64? (if minus then -(m : Int) else m)
  else (int64? m).map fun b => if minus then -b else b

/-- What is written on to the `n` has no upper case. -/
theorem map_toLower_name_offsetText :
    let suffix := (name (offsetText minus before after (d :: ds))).1
    suffix.map Char.toLower = suffix := by
  intro suffix
  have digits : (d :: ds).map Char.toLower = d :: ds :=
    (List.map_congr_left fun c member => toLower_of_isDigit (allDigits c member)).trans
      (List.map_id' _)
  by_cases apart : before = true ∨ minus = false
  · simp only [suffix, name_offsetText apart, List.map_nil]
  · obtain ⟨rfl, rfl⟩ : before = false ∧ minus = true := by simpa using apart
    simp only [suffix, name_offsetText_hyphen allDigits]
    cases after with
    | true => rfl
    | false => exact congrArg _ digits

/-- Only where a blank stands before the sign and none after it is the sign read with its number. -/
theorem withStep_offsetText (step : Int64) :
    let text := offsetText minus before after (d :: ds)
    withStep step ('n' :: (name text).1) (solid (scan (name text).2).dropLast) =
      (readOffset minus (before && !after) (digitsValue (d :: ds))).map fun b => ⟨step, b⟩ := by
  intro text
  by_cases apart : before = true ∨ minus = false
  · rw [name_offsetText apart, scan_offsetText allDigits, ← List.append_assoc,
      List.dropLast_concat]
    cases after with
    | true =>
      rw [Bool.not_true, Bool.and_false, readOffset, if_neg Bool.false_ne_true, Option.map_map]
      cases before <;> cases minus <;> rfl
    | false =>
      rcases apart with rfl | rfl
      · cases minus <;> rfl
      · cases before
        · exact (Option.map_map ..).symm
        · rfl
  -- a hyphen right behind the `n` is no token, so the digits come without a sign
  · obtain ⟨rfl, rfl⟩ : before = false ∧ minus = true := by simpa using apart
    rw [name_offsetText_hyphen allDigits, Bool.false_and, readOffset, if_neg Bool.false_ne_true,
      Option.map_map]
    cases after with
    | true =>
      have digit := isBlank_of_isDigit (allDigits d List.mem_cons_self)
      have plain : scan (d :: ds) = _ := @scan_number none d ds allDigits
      rw [if_pos rfl, scan_blank (by simp [digit]), plain]
      rfl
    | false =>
      rw [if_neg Bool.false_ne_true, scan_nil skipComments_nil]
      have all : (!(d :: ds).isEmpty && (d :: ds).all Char.isDigit) = true := by
        simpa using allDigits
      have read : withStep step ('n' :: '-' :: d :: ds) [] =
        (dashOffset? ('n' :: '-' :: d :: ds)).map fun b => ⟨step, b⟩ := rfl
      rw [dashOffset?, if_pos all, Option.map_map] at read
      exact read

end Offsets

/-- The least offset is not found if its digits are read without the sign. -/
theorem readOffset_natAbs (b : Int64) (joined : Bool) :
    readOffset (decide (b.toInt < 0)) joined b.toInt.natAbs =
      if b = Int64.minValue ∧ joined = false then none else some b := by
  cases joined with
  | true =>
    rw [if_neg (fun least => nomatch least.2), readOffset, if_pos rfl, int64?_eq_some_iff]
    simp only [decide_eq_true_eq]
    split <;> omega
  | false =>
    rw [readOffset, if_neg Bool.false_ne_true]
    simp only [decide_eq_true_eq, and_true]
    by_cases least : b = Int64.minValue
    -- its digits stand for one more than the greatest integer
    · rw [if_pos least, least]
      rfl
    · have size : int64? b.toInt.natAbs = some (if b.toInt < 0 then -b else b) := by
        have negated := toInt_neg_of_ne least
        rw [int64?_eq_some_iff]
        split <;> omega
      rw [if_neg least, size, Option.map_some]
      split
      · rw [Int64.neg_neg]
      · rfl

/-- The characters of a spelling are uniform. -/
theorem normalize_spelling (p : AnPlusB) (before after : Bool) :
    normalize (p.spelling before after).toList = (p.spelling before after).toList := by
  let plain (c : Char) : Bool := c.isDigit || ['-', '+', ' ', 'n'].contains c
  have digits (n : Nat) : (Nat.toDigits 10 n).all plain = true :=
    List.all_eq_true.2 fun c member => by simp [plain, isDigit_of_mem_toDigits member]
  refine normalize_of_all plain (List.all_eq_true.1 ?_) (by decide)
  rw [toList_spelling, offsetText]
  simp only [List.all_append, List.all_cons, digits, Bool.and_true, Bool.true_and,
    Bool.and_eq_true]
  refine ⟨?_, rfl, ?_, ?_, ?_⟩ <;> split <;> rfl

/-- Every step is read from its own digits and its hyphen. -/
theorem integer?_writtenNumber {a : Int64} {cs : List Char}
    (value : digitsValue cs = a.toInt.natAbs) :
    (writtenNumber (if a.toInt < 0 then some true else none) cs).integer? = some a := by
  by_cases negative : a.toInt < 0
  · simp only [writtenNumber, if_pos negative, value, int64?_eq_some_iff]
    show a.toInt = -(a.toInt.natAbs : Int)
    omega
  · simp only [writtenNumber, if_neg negative, value, int64?_eq_some_iff]
    show a.toInt = (a.toInt.natAbs : Int)
    omega

theorem toList_toLower_unit {suffix : List Char} (lower : suffix.map Char.toLower = suffix) :
    (String.ofList ('n' :: suffix)).toLower.toList = 'n' :: suffix := by
  have mapped : (String.ofList ('n' :: suffix)).toLower.toList =
      (String.ofList ('n' :: suffix)).toList.map Char.toLower := String.toList_map
  rw [mapped, String.toList_ofList, List.map_cons, lower]
  rfl

/-- **Every spelling of a value is read as the value**, wherever blanks stand around the sign, but
for the least offset. That one is found only where a blank stands before the sign and none after
it. -/
theorem parse?_tokenize_spelling (p : AnPlusB) (before after : Bool) :
    parse? (tokenize (p.spelling before after)).dropLast =
      if p.offset = Int64.minValue ∧ (before && !after) = false then none else some p := by
  have stepDigits : ∀ c ∈ Nat.toDigits 10 p.step.toInt.natAbs, c.isDigit = true :=
    fun _ => isDigit_of_mem_toDigits
  have offsetDigits : ∀ c ∈ Nat.toDigits 10 p.offset.toInt.natAbs, c.isDigit = true :=
    fun _ => isDigit_of_mem_toDigits
  have stepValue := digitsValue_toDigits p.step.toInt.natAbs
  have offsetValue := digitsValue_toDigits p.offset.toInt.natAbs
  rw [tokenize, normalize_spelling, toList_spelling]
  obtain ⟨d, ds, step⟩ := List.exists_cons_of_ne_nil (@Nat.toDigits_ne_nil p.step.toInt.natAbs 10)
  obtain ⟨e, es, offset⟩ :=
    List.exists_cons_of_ne_nil (@Nat.toDigits_ne_nil p.offset.toInt.natAbs 10)
  rw [step] at stepDigits stepValue ⊢
  rw [offset] at offsetDigits offsetValue ⊢
  rw [scan_dimension stepDigits, List.dropLast_cons_of_ne_nil (scan_ne_nil _), parse?_dimension,
    integer?_writtenNumber stepValue, Option.bind_some,
    toList_toLower_unit (map_toLower_name_offsetText offsetDigits),
    withStep_offsetText offsetDigits, offsetValue, readOffset_natAbs]
  split <;> rfl

/-- With a step of two the least offset is spelled `2n-9223372036854775808`, which is not read, and
`2n -9223372036854775808`, which is. -/
theorem parse?_least_offset :
    let least : AnPlusB := ⟨2, Int64.minValue⟩
    least.spelling false false = "2n-9223372036854775808" ∧
      least.spelling true false = "2n -9223372036854775808" ∧
      parse? (tokenize "2n-9223372036854775808").dropLast = none ∧
      parse? (tokenize "2n -9223372036854775808").dropLast = some least := by
  decide +kernel

end AnPlusB

end Selectors
