import Selectors.Proofs.Places

/-!
Where one text ends and another one begins. A text is cut into tokens by looking ahead, so tokens of
two texts could run together. They do not if the second text starts with a border, a character at
which no token goes on, and the first one does not end inside a comment, a string or an escape. Then
the tokens of both are those of the one behind those of the other (`scan_border`).

Each reader of the lexer has one lemma, which says that a border ends what it reads and that it
leaves the text at the place where it found it (`Settles`). The induction follows `scan`, one token at
a time.
-/

namespace Selectors

namespace Lexer

/-! ## Borders -/

/-- A character at which no token goes on, and which opens no comment behind a slash. -/
structure Border (d : Char) : Prop where
  name : isNameChar d = false
  blank : isBlank d = false
  apart : d ∉ ['\x00', '\\', '.', '+', '%', '(', '*']

theorem border_comma : Border ',' := by
  constructor <;> decide

theorem isNameChar_of_isHexDigit {c : Char} (hex : isHexDigit c = true) : isNameChar c = true := by
  have letter (alpha : c.isAlpha = true) : isNameChar c = true := by
    simp [isNameChar, isNameStart, alpha]
  simp only [isHexDigit, Bool.or_eq_true, Bool.and_eq_true, decide_eq_true_eq] at hex
  rcases hex with (digit | ⟨low, high⟩) | ⟨low, high⟩
  · simp [isNameChar, digit]
  · have lower : c.isLower = true :=
      Bool.and_eq_true_iff.2 ⟨decide_eq_true low,
        decide_eq_true (UInt32.le_trans high (by decide))⟩
    exact letter (Bool.or_eq_true_iff.2 (.inr lower))
  · have upper : c.isUpper = true :=
      decide_eq_true ⟨low, UInt32.le_trans high (by decide)⟩
    exact letter (Bool.or_eq_true_iff.2 (.inl upper))

namespace Border

variable {d : Char} (border : Border d)
include border

theorem not_isNameStart : isNameStart d = false := by
  have name := border.name
  rw [isNameChar, Bool.or_eq_false_iff, Bool.or_eq_false_iff] at name
  exact name.1.1

theorem not_isDigit : d.isDigit = false := by
  have name := border.name
  rw [isNameChar, Bool.or_eq_false_iff, Bool.or_eq_false_iff] at name
  exact name.1.2

theorem not_isHexDigit : isHexDigit d = false := by
  rw [Bool.eq_false_iff]
  intro hex
  have name := isNameChar_of_isHexDigit hex
  rw [border.name] at name
  cases name

theorem ne_of_mem {c : Char} (member : c ∈ ['\x00', '\\', '.', '+', '%', '(', '*']) : d ≠ c :=
  fun same => border.apart (same ▸ member)

theorem ne_of_isNameChar {c : Char} (isName : isNameChar c = true) : d ≠ c := by
  intro same
  have name := border.name
  rw [same, isName] at name
  cases name

theorem ne_of_isBlank {c : Char} (blank : isBlank c = true) : d ≠ c := by
  intro same
  have notBlank := border.blank
  rw [same, blank] at notBlank
  cases notBlank

end Border

/-! ## Lists in front of a border -/

section Lists

variable {c d : Char} {cs more : List Char} {p : Char → Bool}

theorem head?_border (apart : d ≠ c) (other : cs.head? ≠ some c) :
    (cs ++ d :: more).head? ≠ some c := by
  cases cs with
  | nil => simpa using apart
  | cons _ _ => exact other

theorem any_head?_border (stops : p d = false) :
    (cs ++ d :: more).head?.any p = cs.head?.any p := by
  cases cs with
  | nil => exact stops
  | cons _ _ => rfl

theorem takeWhile_border (stops : p d = false) (cs more : List Char) :
    (cs ++ d :: more).takeWhile p = cs.takeWhile p := by
  rw [List.takeWhile_append, List.takeWhile_cons_of_neg (by rw [stops]; exact Bool.false_ne_true),
    List.append_nil, ite_eq_right_iff]
  intro full
  rw [(List.takeWhile_sublist p).eq_of_length full]

theorem dropWhile_border (stops : p d = false) (cs more : List Char) :
    (cs ++ d :: more).dropWhile p = cs.dropWhile p ++ d :: more := by
  rw [List.dropWhile_append, List.dropWhile_cons_of_neg (by rw [stops]; exact Bool.false_ne_true)]
  split
  · rename_i empty
    rw [List.isEmpty_iff.1 empty, List.nil_append]
  · rfl

end Lists

/-! ## What a text starts with -/

section Readers

variable {d : Char} (border : Border d) {cs more : List Char}
include border

theorem startsEscape_border : startsEscape (cs ++ d :: more) = startsEscape cs := by
  cases cs with
  | nil =>
    have apart : d ≠ '\\' := border.ne_of_mem (by decide)
    rw [List.nil_append, Bool.eq_iff_iff, startsEscape_cons_iff]
    exact iff_of_false (fun escaped => apart escaped.1) Bool.false_ne_true
  | cons c cs =>
    rw [List.cons_append, Bool.eq_iff_iff, startsEscape_cons_iff, startsEscape_cons_iff]
    refine and_congr_right fun _ => not_congr ?_
    cases cs with
    | nil =>
      have apart : d ≠ '\n' := border.ne_of_isBlank (by decide)
      simp [apart]
    | cons next cs => rfl

theorem startsName_border : startsName (cs ++ d :: more) = startsName cs := by
  have escape (cs : List Char) : startsEscape (cs ++ d :: more) = startsEscape cs :=
    startsEscape_border border
  have hyphen : d ≠ '-' := border.ne_of_isNameChar (by decide)
  cases cs with
  | nil =>
    have alone : startsEscape (d :: more) = false := escape []
    rw [List.nil_append, startsName_cons, if_neg hyphen, border.not_isNameStart, alone]
    rfl
  | cons c cs =>
    have here : startsEscape (c :: (cs ++ d :: more)) = startsEscape (c :: cs) := escape (c :: cs)
    have stops : (isNameStart d || d == '-') = false := by simp [border.not_isNameStart, hyphen]
    rw [List.cons_append, startsName_cons, startsName_cons, any_head?_border stops, escape, here]

theorem startsDigit_border : startsDigit (cs ++ d :: more) = startsDigit cs := by
  cases cs with
  | nil => exact border.not_isDigit
  | cons c cs => rfl

theorem startsFraction_border : startsFraction (cs ++ d :: more) = startsFraction cs := by
  cases cs with
  | nil =>
    have apart : d ≠ '.' := border.ne_of_mem (by decide)
    simp [startsFraction, apart]
  | cons c cs =>
    by_cases isPoint : c = '.'
    · rw [isPoint]
      exact startsDigit_border border
    · simp [startsFraction, isPoint]

theorem sign_border (cs : List Char) :
    sign (cs ++ d :: more) = ((sign cs).1, (sign cs).2 ++ d :: more) := by
  have plus : d ≠ '+' := border.ne_of_mem (by decide)
  have minus : d ≠ '-' := border.ne_of_isNameChar (by decide)
  cases cs with
  | nil => simp [sign, plus, minus]
  | cons c cs =>
    by_cases isPlus : c = '+'
    · rw [isPlus]
      rfl
    · by_cases isMinus : c = '-'
      · rw [isMinus]
        rfl
      · simp [sign, isPlus, isMinus]

theorem startsNumber_border : startsNumber (cs ++ d :: more) = startsNumber cs := by
  rw [startsNumber_eq, startsNumber_eq, sign_border border, startsDigit_border border,
    startsFraction_border border]

theorem dropBlank_border (cs : List Char) :
    dropBlank (cs ++ d :: more) = dropBlank cs ++ d :: more := by
  cases cs with
  | nil => simp [dropBlank, border.blank]
  | cons c cs =>
    rw [List.cons_append, dropBlank, dropBlank]
    split <;> rfl

theorem escape_border (full : cs ≠ []) :
    escape (cs ++ d :: more) = ((escape cs).1, (escape cs).2 ++ d :: more) := by
  cases cs with
  | nil => exact absurd rfl full
  | cons c cs =>
    have digits : ((cs ++ d :: more).take 5).takeWhile isHexDigit =
        (cs.take 5).takeWhile isHexDigit := by
      rcases Nat.lt_or_ge cs.length 5 with short | long
      · obtain ⟨left, missing⟩ := Nat.exists_eq_add_of_lt short
        have inside : cs.take 5 = cs := List.take_of_length_le (Nat.le_of_lt short)
        have beyond : (cs ++ d :: more).take 5 = cs ++ d :: more.take left := by
          rw [missing, Nat.add_assoc, List.take_length_add_append, List.take_succ_cons]
        rw [inside, beyond, takeWhile_border border.not_isHexDigit]
      · rw [List.take_append_of_le_length long]
    have fits : ((cs.take 5).takeWhile isHexDigit).length ≤ cs.length :=
      ((List.takeWhile_sublist _).trans (List.take_sublist _ _)).length_le
    rw [List.cons_append, escape, escape]
    split
    · dsimp only
      rw [digits, List.drop_append_of_le_length fits, dropBlank_border border]
    · rfl

end Readers

/-- In front of a border a reader stops, whatever follows, and it leaves the text at the place where
it found it. -/
structure Settles {α : Type} (d : Char) (read : List Char → α × List Char) (cs : List Char) :
    Prop where
  same : ∀ more, read (cs ++ d :: more) = ((read cs).1, (read cs).2 ++ d :: more)
  place : Place.plain.atEnd (read cs).2 = Place.plain.atEnd cs

section Settling

variable {d : Char} (border : Border d) {cs : List Char}
include border

/-! ## Names -/

theorem settles_name (closed : Place.plain.atEnd cs ≠ .escape) : Settles d name cs := by
  fun_induction name cs with
  | case1 =>
    have notName : ¬ isNameChar d = true := by
      rw [border.name]
      exact Bool.false_ne_true
    have notEscape (more : List Char) : ¬ startsEscape (d :: more) = true := by
      have same := @startsEscape_border d border [] more
      rw [List.nil_append] at same
      rw [same]
      exact Bool.false_ne_true
    constructor
    case same =>
      intro more
      rw [name]
      exact name_stop notName (notEscape more)
    case place => rw [name]
  | case2 c cs isName ih =>
    rw [atEnd_ordinary (ordinary_of_isNameChar isName)] at closed
    obtain ⟨same, place⟩ := ih closed
    constructor
    case same =>
      intro more
      rw [List.cons_append, name_char isName, name_char isName, same]
    case place => rw [name_char isName, place, atEnd_ordinary (ordinary_of_isNameChar isName)]
  | case3 c cs notName escaped ih =>
    obtain ⟨full, leads⟩ := atEnd_startsEscape escaped closed
    obtain ⟨same, place⟩ := ih (leads ▸ closed)
    constructor
    case same =>
      intro more
      have stillEscaped : startsEscape (c :: (cs ++ d :: more)) = true :=
        (@startsEscape_border d border (c :: cs) more).trans escaped
      rw [List.cons_append, name_escape notName stillEscaped, name_escape notName escaped,
        escape_border border full, same]
    case place => rw [name_escape notName escaped, place, leads]
  | case4 c cs notName notEscaped =>
    constructor
    case same =>
      intro more
      have stillNot : ¬ startsEscape (c :: (cs ++ d :: more)) = true := by
        rw [← List.cons_append, startsEscape_border border]
        exact notEscaped
      rw [List.cons_append, name_stop notName stillNot, name_stop notName notEscaped]
      rfl
    case place => rw [name_stop notName notEscaped]

/-! ## Numbers -/

theorem settles_sign (cs : List Char) : Settles d sign cs where
  same _ := sign_border border cs
  place := by
    unfold sign
    split
    · exact (atEnd_ordinary (by decide)).symm
    · exact (atEnd_ordinary (by decide)).symm
    · rfl

theorem settles_digits (cs : List Char) : Settles d digits cs where
  same more := by
    rw [digits, digits, takeWhile_border border.not_isDigit, dropWhile_border border.not_isDigit]
  place := atEnd_dropWhile (fun _ => ordinary_of_isDigit) cs

theorem settles_fraction (cs : List Char) : Settles d fraction cs := by
  by_cases starts : startsFraction cs = true
  · obtain ⟨rest, rfl⟩ := exists_of_startsFraction starts
    have here : fraction ('.' :: rest) = digits rest := if_pos starts
    obtain ⟨same, place⟩ := settles_digits border rest
    constructor
    case same =>
      intro more
      have starts' : startsFraction ('.' :: (rest ++ d :: more)) = true :=
        (@startsFraction_border d border ('.' :: rest) more).trans starts
      have beyond : fraction ('.' :: (rest ++ d :: more)) = digits (rest ++ d :: more) :=
        if_pos starts'
      rw [here, List.cons_append, beyond, same]
    case place => rw [here, place, atEnd_ordinary (by decide)]
  · constructor
    case same =>
      intro more
      rw [fraction, fraction, startsFraction_border border, if_neg starts, if_neg starts]
    case place => rw [fraction, if_neg starts]

theorem settles_power (cs : List Char) : Settles d power cs := by
  cases cs with
  | nil =>
    have small : d ≠ 'e' := border.ne_of_isNameChar (by decide)
    have large : d ≠ 'E' := border.ne_of_isNameChar (by decide)
    exact ⟨fun more => by simp [power, small, large], rfl⟩
  | cons c cs =>
    obtain ⟨same, place⟩ := settles_digits border (sign cs).2
    constructor
    case same =>
      intro more
      rw [List.cons_append, power, power, sign_border border, startsDigit_border border]
      split
      · dsimp only
        rw [same]
      · rfl
    case place =>
      rw [power]
      split
      · rename_i starts
        have letter := (Bool.and_eq_true_iff.1 starts).1
        have ordinary : Ordinary c :=
          ordinary_of (fun c => c == 'e' || c == 'E') letter (by decide)
        rw [place, (settles_sign border cs).place, atEnd_ordinary ordinary]
      · rfl

theorem settles_number (cs : List Char) : Settles d number cs where
  same more := by
    simp only [number, (settles_sign border cs).same, (settles_digits border _).same,
      (settles_fraction border _).same, (settles_power border _).same]
  place := by
    have left : (number cs).2 = (power (fraction (digits (sign cs).2).2).2).2 := rfl
    rw [left, (settles_power border _).place, (settles_fraction border _).place,
      (settles_digits border _).place, (settles_sign border _).place]

theorem settles_numeric (closed : Place.plain.atEnd cs ≠ .escape) : Settles d numeric cs := by
  obtain ⟨same, place⟩ := settles_number border cs
  have rest (more : List Char) :
      (number (cs ++ d :: more)).2 = (number cs).2 ++ d :: more := by rw [same]
  have starts (more : List Char) :
      startsName (number (cs ++ d :: more)).2 = startsName (number cs).2 := by
    rw [rest, startsName_border border]
  by_cases unit : startsName (number cs).2 = true
  · have named := settles_name border (place.symm ▸ closed)
    constructor
    case same =>
      intro more
      rw [numeric_unit unit, numeric_unit ((starts more).trans unit), rest, named.same, same]
    case place => rw [numeric_unit unit, named.place, place]
  · have noUnit (more : List Char) : ¬ startsName (number (cs ++ d :: more)).2 = true := by
      rw [starts]
      exact unit
    by_cases percent : (number cs).2.head? = some '%'
    · obtain ⟨behind, found⟩ := List.head?_eq_some_iff.1 percent
      constructor
      case same =>
        intro more
        have stillFound : (number (cs ++ d :: more)).2 = '%' :: (behind ++ d :: more) := by
          rw [rest, found, List.cons_append]
        rw [numeric_percent unit found, numeric_percent (noUnit more) stillFound, same]
      case place =>
        rw [numeric_percent unit found, ← place, found, atEnd_ordinary (by decide)]
    · constructor
      case same =>
        intro more
        have noPercent : (number (cs ++ d :: more)).2.head? ≠ some '%' := by
          rw [rest]
          exact head?_border (border.ne_of_mem (by decide)) percent
        rw [numeric_plain unit percent, numeric_plain (noUnit more) noPercent, same]
      case place => rw [numeric_plain unit percent, place]

/-! ## Identifiers and hashes -/

theorem settles_identLike (closed : Place.plain.atEnd cs ≠ .escape) : Settles d identLike cs := by
  obtain ⟨same, place⟩ := settles_name border closed
  have rest (more : List Char) : (name (cs ++ d :: more)).2 = (name cs).2 ++ d :: more := by rw [same]
  by_cases paren : (name cs).2.head? = some '('
  · obtain ⟨behind, found⟩ := List.head?_eq_some_iff.1 paren
    constructor
    case same =>
      intro more
      have stillFound : (name (cs ++ d :: more)).2 = '(' :: (behind ++ d :: more) := by
        rw [rest, found, List.cons_append]
      rw [identLike_function found, identLike_function stillFound, same]
    case place => rw [identLike_function found, ← place, found, atEnd_ordinary (by decide)]
  · constructor
    case same =>
      intro more
      have noParen : (name (cs ++ d :: more)).2.head? ≠ some '(' := by
        rw [rest]
        exact head?_border (border.ne_of_mem (by decide)) paren
      rw [identLike_ident paren, identLike_ident noParen, same]
    case place => rw [identLike_ident paren, place]

theorem settles_hash (closed : Place.plain.atEnd cs ≠ .escape) : Settles d hash cs := by
  obtain ⟨same, place⟩ := settles_name border closed
  have starts (more : List Char) :
      ((cs ++ d :: more).head?.any isNameChar || startsEscape (cs ++ d :: more)) =
        (cs.head?.any isNameChar || startsEscape cs) := by
    rw [startsEscape_border border, any_head?_border border.name]
  constructor
  case same =>
    intro more
    rw [hash, hash, starts, same, startsName_border border]
    split <;> rfl
  case place =>
    rw [hash]
    split
    · exact place
    · rfl

/-! ## Strings -/

/-- A string that is not closed is all of the text. -/
def Unclosed (quote : Char) (cs : List Char) : Prop :=
  ∃ value, stringBody quote cs = (some value, []) ∧ (Place.string quote).atEnd cs = .string quote

/-- A string that is closed, by a quote or by a line break, is closed whatever follows. -/
structure Closed (d quote : Char) (cs : List Char) : Prop where
  same : ∀ more, stringBody quote (cs ++ d :: more) =
    ((stringBody quote cs).1, (stringBody quote cs).2 ++ d :: more)
  place : Place.plain.atEnd (stringBody quote cs).2 = (Place.string quote).atEnd cs

omit border in
/-- What holds of the rest of a string holds of the whole one. -/
theorem unclosed_or_closed_of {quote : Char} {ds : List Char}
    (onto : Option (List Char) → Option (List Char)) (keeps : ∀ value, ∃ w, onto (some value) = some w)
    (here : stringBody quote cs = (onto (stringBody quote ds).1, (stringBody quote ds).2))
    (beyond : ∀ more, stringBody quote (cs ++ d :: more) =
      (onto (stringBody quote (ds ++ d :: more)).1, (stringBody quote (ds ++ d :: more)).2))
    (leads : (Place.string quote).atEnd cs = (Place.string quote).atEnd ds)
    (rest : Unclosed quote ds ∨ Closed d quote ds) : Unclosed quote cs ∨ Closed d quote cs := by
  rcases rest with ⟨value, body, place⟩ | ⟨same, place⟩
  · obtain ⟨w, kept⟩ := keeps value
    exact Or.inl ⟨w, by rw [here, body, kept], leads.trans place⟩
  · refine Or.inr ⟨fun more => ?_, ?_⟩
    · rw [here, beyond, same]
    · rw [here, place, leads]

theorem unclosed_or_closed {quote : Char} (closed : (Place.string quote).atEnd cs ≠ .escape) :
    Unclosed quote cs ∨ Closed d quote cs := by
  fun_induction stringBody quote cs with
  | case1 => exact Or.inl ⟨[], stringBody_nil, atEnd_nil⟩
  | case2 c cs isQuote =>
    refine Or.inr ⟨fun more => ?_, ?_⟩
    · rw [List.cons_append, stringBody_quote isQuote, stringBody_quote isQuote]
    · rw [stringBody_quote isQuote, atEnd_string_close (by rw [isQuote, Bool.true_or])]
  | case3 c cs notQuote isBreak =>
    refine Or.inr ⟨fun more => ?_, ?_⟩
    · rw [List.cons_append, stringBody_break notQuote isBreak, stringBody_break notQuote isBreak]
      rfl
    · have ordinary : Ordinary c := eq_of_beq isBreak ▸ (by decide : Ordinary '\n')
      rw [stringBody_break notQuote isBreak, atEnd_ordinary ordinary,
        atEnd_string_close (by rw [isBreak, Bool.or_true])]
  | case4 c notQuote notBreak backslash =>
    rw [atEnd_string_backslash notQuote notBreak backslash] at closed
    exact absurd atEnd_nil closed
  | case5 c notQuote notBreak backslash next ds isBreak ih =>
    have leads : (Place.string quote).atEnd (c :: next :: ds) = (Place.string quote).atEnd ds := by
      rw [atEnd_string_backslash notQuote notBreak backslash, eq_of_beq isBreak]
      rfl
    refine unclosed_or_closed_of id (fun value => ⟨value, rfl⟩) ?_ (fun more => ?_) leads
      (ih (leads ▸ closed))
    · exact stringBody_continued notQuote notBreak backslash isBreak
    · exact stringBody_continued notQuote notBreak backslash isBreak
  | case6 c notQuote notBreak backslash next ds other ih =>
    have noBreak : (next :: ds).head? ≠ some '\n' := fun found =>
      other (beq_iff_eq.2 (Option.some.inj found))
    have behind : (Place.string quote).atEnd (c :: next :: ds) = _ :=
      atEnd_string_backslash notQuote notBreak backslash
    have leads := behind.trans (atEnd_afterBackslash noBreak (behind ▸ closed)).2
    refine unclosed_or_closed_of (Option.map ((escape (next :: ds)).1 :: ·))
      (fun value => ⟨_, rfl⟩) ?_ (fun more => ?_) leads (ih (leads ▸ closed))
    · exact stringBody_escape notQuote notBreak backslash other
    · have escaped : escape (next :: (ds ++ d :: more)) = _ :=
        escape_border border (List.cons_ne_nil next ds)
      rw [List.cons_append, List.cons_append, stringBody_escape notQuote notBreak backslash other,
        escaped]
  | case7 c cs notQuote notBreak notBackslash ih =>
    have leads : (Place.string quote).atEnd (c :: cs) = (Place.string quote).atEnd cs :=
      atEnd_string_char notQuote notBreak notBackslash
    refine unclosed_or_closed_of (Option.map (c :: ·)) (fun value => ⟨_, rfl⟩) ?_ (fun more => ?_)
      leads (ih (leads ▸ closed))
    · exact stringBody_char notQuote notBreak notBackslash
    · exact stringBody_char notQuote notBreak notBackslash

/-! ## Tokens -/

/-- The token that starts with `c` ends in front of a border, whatever follows. -/
structure LexemeEnds (d c : Char) (cs : List Char) : Prop where
  same : ∀ more, lexeme c (cs ++ d :: more) = ((lexeme c cs).1, (lexeme c cs).2 ++ d :: more)
  place : Place.plain.atEnd (lexeme c cs).2 = Place.plain.atEnd (c :: cs)

/-- The token that starts with `c` is a string that is not closed. -/
def LexemeUnclosed (c : Char) (cs : List Char) : Prop :=
  ∃ value, lexeme c cs = (.string value, []) ∧ Place.plain.atEnd (c :: cs) = .string c

omit border in
theorem LexemeEnds.of_settles {c : Char} {read : List Char → Token × List Char}
    (reads : ∀ cs, lexeme c cs = read cs) (ordinary : Ordinary c) (settles : Settles d read cs) :
    LexemeEnds d c cs where
  same more := by rw [reads, reads, settles.same]
  place := by rw [reads, settles.place, atEnd_ordinary ordinary]

theorem lexemeUnclosed_or_ends_of_quote {c : Char} (isQuote : (c == '"' || c == '\x27') = true)
    (reads : ∀ cs, lexeme c cs = stringToken c cs) (closed : Place.plain.atEnd (c :: cs) ≠ .escape) :
    LexemeUnclosed c cs ∨ LexemeEnds d c cs := by
  rw [atEnd_quote isQuote] at closed
  rcases unclosed_or_closed border closed with ⟨value, body, place⟩ | ⟨same, place⟩
  · refine Or.inl ⟨String.ofList value, ?_, ?_⟩
    · rw [reads, stringToken_eq, body, Option.elim_some]
    · rw [atEnd_quote isQuote, place]
  · right
    constructor
    case same =>
      intro more
      rw [reads, reads, stringToken_eq, stringToken_eq, same]
    case place => rw [reads, stringToken_eq, atEnd_quote isQuote, place]

theorem lexemeEnds_of_loose {c : Char} (loose : Loose c) (noComment : c = '/' → cs.head? ≠ some '*')
    (closed : Place.plain.atEnd (c :: cs) ≠ .escape) : LexemeEnds d c cs := by
  have number (more : List Char) : startsNumber (c :: (cs ++ d :: more)) = startsNumber (c :: cs) :=
    @startsNumber_border d border (c :: cs) more
  have keyword (more : List Char) :
      (c == '@' && startsName (cs ++ d :: more)) = (c == '@' && startsName cs) := by
    rw [startsName_border border]
  have named (more : List Char) : startsName (c :: (cs ++ d :: more)) = startsName (c :: cs) :=
    @startsName_border d border (c :: cs) more
  by_cases isNumber : startsNumber (c :: cs) = true
  · obtain ⟨same, place⟩ := settles_numeric border closed
    refine ⟨fun more => ?_, ?_⟩
    · rw [loose.lexeme_number isNumber, loose.lexeme_number ((number more).trans isNumber)]
      exact same more
    · rw [loose.lexeme_number isNumber, place]
  have noNumber (more : List Char) : ¬ startsNumber (c :: (cs ++ d :: more)) = true := by
    rw [number]
    exact isNumber
  by_cases isKeyword : (c == '@' && startsName cs) = true
  · have ordinary : Ordinary c :=
      eq_of_beq (Bool.and_eq_true_iff.1 isKeyword).1 ▸ (by decide : Ordinary '@')
    rw [atEnd_ordinary ordinary] at closed
    obtain ⟨same, place⟩ := settles_name border closed
    refine ⟨fun more => ?_, ?_⟩
    · rw [loose.lexeme_keyword isNumber isKeyword,
        loose.lexeme_keyword (noNumber more) ((keyword more).trans isKeyword), same]
    · rw [loose.lexeme_keyword isNumber isKeyword, place, atEnd_ordinary ordinary]
  have noKeyword (more : List Char) : ¬ (c == '@' && startsName (cs ++ d :: more)) = true := by
    rw [keyword]
    exact isKeyword
  by_cases isName : startsName (c :: cs) = true
  · obtain ⟨same, place⟩ := settles_identLike border closed
    refine ⟨fun more => ?_, ?_⟩
    · rw [loose.lexeme_name isNumber isKeyword isName,
        loose.lexeme_name (noNumber more) (noKeyword more) ((named more).trans isName)]
      exact same more
    · rw [loose.lexeme_name isNumber isKeyword isName, place]
  · have noName (more : List Char) : ¬ startsName (c :: (cs ++ d :: more)) = true := by
      rw [named]
      exact isName
    refine ⟨fun more => ?_, ?_⟩
    · rw [loose.lexeme_delim isNumber isKeyword isName,
        loose.lexeme_delim (noNumber more) (noKeyword more) (noName more)]
    · rw [loose.lexeme_delim isNumber isKeyword isName]
      exact atEnd_delim noComment loose.quote isName

theorem lexemeUnclosed_or_ends {c : Char} (noComment : c = '/' → cs.head? ≠ some '*')
    (closed : Place.plain.atEnd (c :: cs) ≠ .escape) :
    LexemeUnclosed c cs ∨ LexemeEnds d c cs := by
  by_cases blank : isBlank c = true
  · have reads (cs : List Char) : lexeme c cs = (.blank, cs.dropWhile isBlank) := if_pos blank
    refine Or.inr ⟨fun more => ?_, ?_⟩
    · rw [reads, reads, dropWhile_border border.blank]
    · rw [reads, atEnd_dropWhile fun _ => ordinary_of_isBlank, atEnd_ordinary
        (ordinary_of_isBlank blank)]
  by_cases quote : (c == '"' || c == '\x27') = true
  · have reads (cs : List Char) : lexeme c cs = stringToken c cs :=
      (if_neg blank).trans (if_pos quote)
    exact lexemeUnclosed_or_ends_of_quote border quote reads closed
  right
  by_cases isHash : (c == '#') = true
  · have reads (cs : List Char) : lexeme c cs = hash cs :=
      (if_neg blank).trans ((if_neg quote).trans (if_pos isHash))
    have ordinary : Ordinary c := eq_of_beq isHash ▸ (by decide : Ordinary '#')
    rw [atEnd_ordinary ordinary] at closed
    exact .of_settles reads ordinary (settles_hash border closed)
  cases single : punctuation? c with
  | some token =>
    have reads (cs : List Char) : lexeme c cs = (token, cs) := by
      rw [lexeme, if_neg blank, if_neg quote, if_neg isHash, single]
    refine ⟨fun more => ?_, ?_⟩
    · rw [reads, reads]
    · rw [reads, atEnd_ordinary (ordinary_of_punctuation? single)]
  | none => exact lexemeEnds_of_loose border ⟨blank, quote, isHash, single⟩ noComment closed

/-! ## Whole texts -/

theorem lexemeUnclosed_or_ends_of_skipComments {c : Char} {rest : List Char}
    (skipped : skipComments cs = c :: rest) (notInside : Place.plain.atEnd cs ≠ .comment)
    (closed : Place.plain.atEnd cs ≠ .escape) :
    Place.plain.atEnd cs = Place.plain.atEnd (c :: rest) ∧
      (LexemeUnclosed c rest ∨ LexemeEnds d c rest) := by
  have place := (skipComments_append notInside []).2
  rw [skipped] at place
  rw [place] at closed
  exact ⟨place, lexemeUnclosed_or_ends border (noComment_of_skipComments skipped) closed⟩

/-- The tokens of a text that ends outside of everything, and behind them those of the text that
starts with a border. -/
theorem scan_border (closed : Place.plain.atEnd cs = .plain) (more : List Char) :
    scan (cs ++ d :: more) = (scan cs).dropLast ++ scan (d :: more) := by
  fun_induction scan cs with
  | case1 cs skipped =>
    have skipsOn := (skipComments_append (by rw [closed]; nofun) (d :: more)).1
    rw [skipped, List.nil_append] at skipsOn
    exact scan_congr skipsOn
  | case2 cs c rest skipped ih =>
    have skipsOn := (skipComments_append (by rw [closed]; nofun) (d :: more)).1
    obtain ⟨place, unclosed | ends⟩ := lexemeUnclosed_or_ends_of_skipComments border skipped
      (by rw [closed]; nofun) (by rw [closed]; nofun)
    · obtain ⟨value, -, string⟩ := unclosed
      rw [← place, closed] at string
      cases string
    · have noComment := noComment_of_skipComments skipped
      have apart : d ≠ '*' := border.ne_of_mem (by decide)
      rw [skipped, List.cons_append,
        skipComments_eq_self fun slash => head?_border apart (noComment slash)] at skipsOn
      rw [scan_cons skipsOn, ends.same, ih ((ends.place.trans place.symm).trans closed),
        List.dropLast_cons_of_ne_nil (scan_ne_nil _), List.cons_append]

/-- Making line breaks uniform looks at no pair of characters with a border behind it. -/
theorem normalize_border (cs more : List Char) :
    normalize (cs ++ d :: more) = normalize cs ++ d :: normalize more := by
  fun_induction normalize cs with
  | case1 =>
    have notReturn : d ≠ '\r' := border.ne_of_isBlank (by decide)
    have notFeed : d ≠ '\x0c' := border.ne_of_isBlank (by decide)
    have notNull : d ≠ '\x00' := border.ne_of_mem (by decide)
    rw [List.nil_append, normalize_cons fun isReturn => absurd isReturn notReturn]
    simp [uniform, notReturn, notFeed, notNull]
  | case2 cs ih => rw [List.cons_append, List.cons_append, normalize, ih, List.cons_append]
  | case3 c cs noPair ih =>
    have notFeed : d ≠ '\n' := border.ne_of_isBlank (by decide)
    have noPair : c = '\r' → cs.head? ≠ some '\n' := by
      intro isReturn found
      obtain ⟨rest, rfl⟩ := List.head?_eq_some_iff.1 found
      exact noPair rest isReturn rfl
    rw [List.cons_append, normalize_cons fun isReturn => head?_border notFeed (noPair isReturn), ih]
    rfl

end Settling

/-- A text that ends inside a string has this string as its last token. -/
theorem scan_eq_of_string {cs : List Char} {quote : Char}
    (inside : Place.plain.atEnd cs = .string quote) :
    ∃ front value, scan cs = front ++ [.string value, .eof] := by
  fun_induction scan cs with
  | case1 cs skipped =>
    have place := (skipComments_append (by rw [inside]; nofun) []).2
    rw [inside, skipped, atEnd_nil] at place
    cases place
  | case2 cs c rest skipped ih =>
    obtain ⟨place, unclosed | ends⟩ := lexemeUnclosed_or_ends_of_skipComments border_comma skipped
      (by rw [inside]; nofun) (by rw [inside]; nofun)
    · obtain ⟨value, string, -⟩ := unclosed
      rw [string, scan_nil skipComments_nil]
      exact ⟨[], value, rfl⟩
    · obtain ⟨front, value, behind⟩ := ih ((ends.place.trans place.symm).trans inside)
      exact ⟨(lexeme c rest).1 :: front, value, by rw [behind, List.cons_append]⟩

end Lexer

end Selectors
