import Mathlib.Data.List.TakeWhile
import Selectors.Token.Lexer

/-!
Where in a text a reader of tokens stands, and what the readers do there, one step at a time.
`Place.atEnd` says where the end of a text is met: outside of everything, inside a comment or a
string, or right behind a backslash. It looks at quotes, backslashes, slashes and stars alone, for no
other character opens or closes anything (`Ordinary`).
-/

namespace Selectors

namespace Lexer

/-! ## Places -/

/-- Where in a text a reader stands. -/
inductive Place : Type where
  /-- Not inside anything that has to be closed. -/
  | plain
  | comment
  | string (quote : Char)
  /-- Right behind a backslash, with nothing after it. -/
  | escape
deriving DecidableEq, Repr

namespace Place

/-- Goes on behind a backslash. One in front of a line break escapes nothing. -/
def afterBackslash (place : Place) : List Char → Place × List Char
  | [] => (.escape, [])
  | '\n' :: cs => (place, cs)
  | c :: cs => (place, (Lexer.escape (c :: cs)).2)

/-- Goes on behind the character `c`, which `cs` follows. -/
def step : Place → Char → List Char → Place × List Char
  | .plain, c, cs =>
    if c == '\\' then afterBackslash .plain cs
    else if c == '"' || c == '\x27' then (.string c, cs)
    else if c == '/' && cs.head? == some '*' then (.comment, cs.tail)
    else (.plain, cs)
  | .comment, c, cs =>
    if c == '*' && cs.head? == some '/' then (.plain, cs.tail) else (.comment, cs)
  | .string quote, c, cs =>
    if c == quote || c == '\n' then (.plain, cs)
    else if c == '\\' then afterBackslash (.string quote) cs
    else (.string quote, cs)
  | .escape, _, cs => (.escape, cs)

theorem length_afterBackslash_le (place : Place) (cs : List Char) :
    (place.afterBackslash cs).2.length ≤ cs.length := by
  unfold afterBackslash
  split
  · exact Nat.le_refl _
  · exact Nat.le_succ _
  · exact length_escape_le _

theorem length_step_le (place : Place) (c : Char) (cs : List Char) :
    (place.step c cs).2.length ≤ cs.length := by
  have tail : cs.tail.length ≤ cs.length := (List.tail_sublist cs).length_le
  unfold step
  split
  case h_4 => exact Nat.le_refl _
  all_goals
    split_ifs <;> first | exact Nat.le_refl _ | exact tail | exact length_afterBackslash_le ..

/-- Where the end of a text is met, if reading starts at a place. -/
def atEnd : Place → List Char → Place
  | place, [] => place
  | place, c :: cs => (place.step c cs).1.atEnd (place.step c cs).2
termination_by _ cs => cs.length
decreasing_by exact Nat.lt_succ_of_le (length_step_le ..)

end Place

/-! ## From place to place -/

variable {c d quote : Char} {cs ds front rest : List Char} {place : Place}

theorem atEnd_nil : place.atEnd [] = place := by
  rw [Place.atEnd]

theorem atEnd_cons : place.atEnd (c :: cs) = (place.step c cs).1.atEnd (place.step c cs).2 := by
  rw [Place.atEnd]

/-- A character that leaves a reader where it stands, if that is outside of everything. -/
def Ordinary (c : Char) : Prop := c ∉ ['\\', '"', '\x27', '/']

instance (c : Char) : Decidable (Ordinary c) := inferInstanceAs (Decidable (¬ _))

theorem ordinary_of (p : Char → Bool) (holds : p c = true)
    (fails : (['\\', '"', '\x27', '/'].any p) = false) : Ordinary c := by
  intro member
  rw [List.any_eq_false] at fails
  exact fails c member holds

theorem ordinary_of_isNameChar (isName : isNameChar c = true) : Ordinary c :=
  ordinary_of isNameChar isName (by decide)

theorem ordinary_of_isDigit (isDigit : c.isDigit = true) : Ordinary c :=
  ordinary_of Char.isDigit isDigit (by decide)

theorem ordinary_of_isBlank (blank : isBlank c = true) : Ordinary c :=
  ordinary_of isBlank blank (by decide)

theorem ordinary_of_punctuation? {token : Token} (found : punctuation? c = some token) :
    Ordinary c := by
  unfold punctuation? at found
  split at found <;> first | decide | cases found

theorem atEnd_ordinary (ordinary : Ordinary c) :
    Place.plain.atEnd (c :: cs) = Place.plain.atEnd cs := by
  simp only [Ordinary, List.mem_cons, List.not_mem_nil, not_or] at ordinary
  obtain ⟨backslash, quote, apostrophe, slash, -⟩ := ordinary
  rw [atEnd_cons, Place.step]
  simp [backslash, quote, apostrophe, slash]

theorem atEnd_dropWhile {p : Char → Bool} (ordinary : ∀ c, p c = true → Ordinary c)
    (cs : List Char) : Place.plain.atEnd (cs.dropWhile p) = Place.plain.atEnd cs := by
  induction cs with
  | nil => rfl
  | cons c cs ih =>
    by_cases passed : p c = true
    · rw [List.dropWhile_cons_of_pos passed, ih, atEnd_ordinary (ordinary c passed)]
    · rw [List.dropWhile_cons_of_neg passed]

theorem atEnd_slash (single : cs.head? ≠ some '*') :
    Place.plain.atEnd ('/' :: cs) = Place.plain.atEnd cs := by
  rw [atEnd_cons, Place.step]
  simp [single]

theorem atEnd_quote (isQuote : (c == '"' || c == '\x27') = true) :
    Place.plain.atEnd (c :: cs) = (Place.string c).atEnd cs := by
  have notBackslash : ¬ (c == '\\') = true := by
    intro backslash
    rw [eq_of_beq backslash] at isQuote
    cases isQuote
  rw [atEnd_cons, Place.step, if_neg notBackslash, if_pos isQuote]

/-- Behind a backslash that is not the end of the text an escape is read, except in front of a line
break. -/
theorem atEnd_afterBackslash (noBreak : cs.head? ≠ some '\n')
    (closed : (place.afterBackslash cs).1.atEnd (place.afterBackslash cs).2 ≠ .escape) :
    cs ≠ [] ∧ (place.afterBackslash cs).1.atEnd (place.afterBackslash cs).2 =
      place.atEnd (escape cs).2 := by
  unfold Place.afterBackslash at closed ⊢
  split at closed
  · exact absurd atEnd_nil closed
  · exact absurd rfl noBreak
  · exact ⟨List.cons_ne_nil _ _, rfl⟩

theorem startsEscape_cons_iff :
    startsEscape (c :: cs) = true ↔ c = '\\' ∧ cs.head? ≠ some '\n' := by
  by_cases backslash : c = '\\'
  · rw [backslash, and_iff_right rfl]
    cases cs with
    | nil => exact iff_of_true rfl (fun found => nomatch found)
    | cons next rest =>
      rw [List.head?_cons, Ne, Option.some_inj]
      by_cases lineBreak : next = '\n'
      · rw [lineBreak]
        exact iff_of_false Bool.false_ne_true (not_not_intro rfl)
      · exact iff_of_true (by simp [startsEscape, lineBreak]) lineBreak
  · refine iff_of_false ?_ (fun escaped => backslash escaped.1)
    simp [startsEscape, backslash]

theorem atEnd_startsEscape (escaped : startsEscape (c :: cs) = true)
    (closed : Place.plain.atEnd (c :: cs) ≠ .escape) :
    cs ≠ [] ∧ Place.plain.atEnd (c :: cs) = Place.plain.atEnd (escape cs).2 := by
  obtain ⟨rfl, noBreak⟩ := startsEscape_cons_iff.1 escaped
  rw [atEnd_cons] at closed ⊢
  exact atEnd_afterBackslash noBreak closed

/-- A character that starts nothing is passed over. -/
theorem atEnd_delim (noComment : c = '/' → cs.head? ≠ some '*')
    (noQuote : ¬ (c == '"' || c == '\x27') = true) (noName : ¬ startsName (c :: cs) = true) :
    Place.plain.atEnd cs = Place.plain.atEnd (c :: cs) := by
  by_cases slash : c = '/'
  · rw [slash, atEnd_slash (noComment slash)]
  by_cases backslash : c = '\\'
  · subst backslash
    have starts : startsName ('\\' :: cs) = startsEscape ('\\' :: cs) := by
      simp [startsName, isNameStart]
    rw [starts, startsEscape_cons_iff, not_and, not_not] at noName
    obtain ⟨rest, rfl⟩ := List.head?_eq_some_iff.1 (noName rfl)
    have passed : Place.plain.atEnd ('\\' :: '\n' :: rest) = Place.plain.atEnd rest := atEnd_cons
    rw [passed, atEnd_ordinary (by decide)]
  · have ordinary : Ordinary c := by
      simp_all [Ordinary]
    rw [atEnd_ordinary ordinary]

/-! ## What the readers do -/

theorem startsNumber_eq (cs : List Char) :
    startsNumber cs = (startsDigit (sign cs).2 || startsFraction (sign cs).2) := by
  unfold startsNumber sign
  split <;> rfl

/-- A name starts behind a hyphen with a second hyphen too, else as it does without one. -/
theorem startsName_cons (c : Char) (cs : List Char) :
    startsName (c :: cs) =
      if c = '-' then (cs.head?.any fun next => isNameStart next || next == '-') || startsEscape cs
      else isNameStart c || startsEscape (c :: cs) := by
  split
  · rename_i isHyphen
    rw [isHyphen]
    cases cs with
    | nil => rfl
    | cons next rest => rfl
  · rename_i notHyphen
    unfold startsName
    split
    · rename_i same
      cases same
      exact absurd rfl notHyphen
    · rename_i same
      cases same
      rfl
    · rename_i same
      cases same

theorem exists_of_startsFraction (starts : startsFraction cs = true) :
    ∃ rest, cs = '.' :: rest := by
  unfold startsFraction at starts
  split at starts
  · exact ⟨_, rfl⟩
  · cases starts

section Names

theorem name_stop (notName : ¬ isNameChar c = true) (notEscape : ¬ startsEscape (c :: cs) = true) :
    name (c :: cs) = ([], c :: cs) := by
  rw [name, if_neg notName, if_neg notEscape]

theorem name_char (isName : isNameChar c = true) :
    name (c :: cs) = (c :: (name cs).1, (name cs).2) := by
  rw [name, if_pos isName]

theorem name_escape (notName : ¬ isNameChar c = true) (escaped : startsEscape (c :: cs) = true) :
    name (c :: cs) = ((escape cs).1 :: (name (escape cs).2).1, (name (escape cs).2).2) := by
  rw [name, if_neg notName, if_pos escaped]

theorem name_nil : name [] = ([], []) := by
  rw [name]

/-- Characters that a name goes on with belong to it. -/
theorem name_append (named : ∀ c ∈ front, isNameChar c = true) (rest : List Char) :
    name (front ++ rest) = (front ++ (name rest).1, (name rest).2) := by
  induction front with
  | nil => rfl
  | cons c front ih =>
    rw [List.forall_mem_cons] at named
    rw [List.cons_append, name_char named.1, ih named.2, List.cons_append]

theorem identLike_function (paren : (name cs).2 = '(' :: rest) :
    identLike cs = (.function (String.ofList (name cs).1), rest) := by
  unfold identLike
  split
  · rename_i same
    rw [same] at paren ⊢
    cases paren
    rfl
  · rename_i other same
    rw [same] at paren
    exact absurd paren (other _)

theorem identLike_ident (noParen : (name cs).2.head? ≠ some '(') :
    identLike cs = (.ident (String.ofList (name cs).1), (name cs).2) := by
  unfold identLike
  split
  · rename_i same
    rw [same] at noParen
    exact absurd rfl noParen
  · rename_i same
    rw [same]

end Names

section Numbers

theorem numeric_unit (unit : startsName (number cs).2 = true) :
    numeric cs = (.dimension (number cs).1 (String.ofList (name (number cs).2).1),
      (name (number cs).2).2) := if_pos unit

theorem numeric_percent (noUnit : ¬ startsName (number cs).2 = true)
    (percent : (number cs).2 = '%' :: rest) : numeric cs = (.percentage (number cs).1, rest) := by
  simp only [numeric, if_neg noUnit]
  simp only [percent]

theorem numeric_plain (noUnit : ¬ startsName (number cs).2 = true)
    (noPercent : (number cs).2.head? ≠ some '%') :
    numeric cs = (.number (number cs).1, (number cs).2) := by
  simp only [numeric, if_neg noUnit]
  split
  · rename_i rest found
    rw [found] at noPercent
    exact absurd rfl noPercent
  · rfl

end Numbers

section Strings

theorem stringBody_nil : stringBody quote [] = (some [], []) := by
  rw [stringBody.eq_def]

theorem stringBody_quote (isQuote : (c == quote) = true) :
    stringBody quote (c :: cs) = (some [], cs) := by
  rw [stringBody.eq_def]
  exact if_pos isQuote

theorem stringToken_eq : stringToken quote cs =
    ((stringBody quote cs).1.elim .badString fun value => .string (String.ofList value),
      (stringBody quote cs).2) := by
  unfold stringToken
  split <;> (rename_i body; rw [body]; rfl)

variable (notQuote : ¬ (c == quote) = true)
include notQuote

theorem stringBody_break (isBreak : (c == '\n') = true) :
    stringBody quote (c :: cs) = (none, c :: cs) := by
  rw [stringBody.eq_def]
  exact (if_neg notQuote).trans (if_pos isBreak)

variable (notBreak : ¬ (c == '\n') = true)
include notBreak

theorem stringBody_continued (backslash : (c == '\\') = true) (isBreak : (d == '\n') = true) :
    stringBody quote (c :: d :: ds) = stringBody quote ds := by
  rw [stringBody.eq_def]
  simp only [notQuote, notBreak, backslash, isBreak, if_true, if_false, Bool.false_eq_true]

theorem stringBody_escape (backslash : (c == '\\') = true) (other : ¬ (d == '\n') = true) :
    stringBody quote (c :: d :: ds) =
      ((stringBody quote (escape (d :: ds)).2).1.map ((escape (d :: ds)).1 :: ·),
        (stringBody quote (escape (d :: ds)).2).2) := by
  rw [stringBody.eq_def]
  simp only [notQuote, notBreak, backslash, other, if_true, if_false, Bool.false_eq_true]

theorem stringBody_char (notBackslash : ¬ (c == '\\') = true) :
    stringBody quote (c :: cs) =
      ((stringBody quote cs).1.map (c :: ·), (stringBody quote cs).2) := by
  rw [stringBody.eq_def]
  simp only [notQuote, notBreak, notBackslash, if_false, Bool.false_eq_true]

theorem atEnd_string_backslash (backslash : (c == '\\') = true) :
    (Place.string quote).atEnd (c :: cs) =
      ((Place.string quote).afterBackslash cs).1.atEnd
        ((Place.string quote).afterBackslash cs).2 := by
  rw [atEnd_cons, Place.step, if_neg (by simp [notQuote, notBreak]), if_pos backslash]

theorem atEnd_string_char (notBackslash : ¬ (c == '\\') = true) :
    (Place.string quote).atEnd (c :: cs) = (Place.string quote).atEnd cs := by
  rw [atEnd_cons, Place.step, if_neg (by simp [notQuote, notBreak]), if_neg notBackslash]

end Strings

theorem atEnd_string_close (closes : (c == quote || c == '\n') = true) :
    (Place.string quote).atEnd (c :: cs) = Place.plain.atEnd cs := by
  rw [atEnd_cons, Place.step, if_pos closes]

section Words

/-- A character that is not a blank, a quote, a hash or punctuation. A number, a keyword or a name
starts there, or it stands for itself. -/
structure Loose (c : Char) : Prop where
  blank : ¬ isBlank c = true
  quote : ¬ (c == '"' || c == '\x27') = true
  hash : ¬ (c == '#') = true
  punctuation : punctuation? c = none

theorem Loose.of_isNameChar (isName : isNameChar c = true) : Loose c := by
  have other {d : Char} (notName : isNameChar d = false) : c ≠ d := by
    rintro rfl
    rw [isName] at notName
    cases notName
  constructor
  case blank =>
    simp [isBlank, other (d := ' ') rfl, other (d := '\t') rfl, other (d := '\n') rfl,
      other (d := '\r') rfl, other (d := '\x0c') rfl]
  case quote => simp [other (d := '"') rfl, other (d := '\x27') rfl]
  case hash => simp [other (d := '#') rfl]
  case punctuation =>
    unfold punctuation?
    split <;> first | rfl | exact absurd rfl (other rfl)

variable (loose : Loose c)
include loose

theorem Loose.lexeme_eq : lexeme c cs =
    if startsNumber (c :: cs) then numeric (c :: cs)
    else if c == '@' && startsName cs then (.atKeyword (String.ofList (name cs).1), (name cs).2)
    else if startsName (c :: cs) then identLike (c :: cs)
    else (.delim c, cs) := by
  rw [lexeme, if_neg loose.blank, if_neg loose.quote, if_neg loose.hash, loose.punctuation]

theorem Loose.lexeme_number (isNumber : startsNumber (c :: cs) = true) :
    lexeme c cs = numeric (c :: cs) := by
  rw [loose.lexeme_eq, if_pos isNumber]

variable (noNumber : ¬ startsNumber (c :: cs) = true)
include noNumber

theorem Loose.lexeme_keyword (isKeyword : (c == '@' && startsName cs) = true) :
    lexeme c cs = (.atKeyword (String.ofList (name cs).1), (name cs).2) := by
  rw [loose.lexeme_eq, if_neg noNumber, if_pos isKeyword]

variable (noKeyword : ¬ (c == '@' && startsName cs) = true)
include noKeyword

theorem Loose.lexeme_name (isName : startsName (c :: cs) = true) :
    lexeme c cs = identLike (c :: cs) := by
  rw [loose.lexeme_eq, if_neg noNumber, if_neg noKeyword, if_pos isName]

theorem Loose.lexeme_delim (noName : ¬ startsName (c :: cs) = true) :
    lexeme c cs = (.delim c, cs) := by
  rw [loose.lexeme_eq, if_neg noNumber, if_neg noKeyword, if_neg noName]

end Words

/-- What a single character becomes when line breaks are made uniform. -/
def uniform (c : Char) : Char :=
  if c == '\r' || c == '\x0c' then '\n' else if c == '\x00' then '\ufffd' else c

theorem normalize_cons (noPair : c = '\r' → cs.head? ≠ some '\n') :
    normalize (c :: cs) = uniform c :: normalize cs := by
  rw [normalize.eq_def]
  split
  · rename_i same
    cases same
  · rename_i same
    cases same
    exact absurd rfl (noPair rfl)
  · rename_i same
    cases same
    rfl

/-- A text without carriage returns, form feeds and null characters is uniform. -/
theorem normalize_of_all (p : Char → Bool) (holds : ∀ c ∈ cs, p c = true)
    (fails : (['\r', '\x0c', '\x00'].any p) = false) : normalize cs = cs := by
  rw [List.any_eq_false] at fails
  induction cs with
  | nil => rfl
  | cons c cs ih =>
    rw [List.forall_mem_cons] at holds
    have other {d : Char} (member : d ∈ ['\r', '\x0c', '\x00']) : c ≠ d := fun same =>
      fails d member (same ▸ holds.1)
    have noReturn : c ≠ '\r' := other (by decide)
    have noFeed : c ≠ '\x0c' := other (by decide)
    have noNull : c ≠ '\x00' := other (by decide)
    rw [normalize_cons fun isReturn => absurd isReturn noReturn, ih holds.2]
    simp [uniform, noReturn, noFeed, noNull]

section Comments

theorem atEnd_comment_close : Place.comment.atEnd ('*' :: '/' :: cs) = Place.plain.atEnd cs :=
  atEnd_cons

theorem atEnd_comment (goesOn : ¬ (c = '*' ∧ cs.head? = some '/')) :
    Place.comment.atEnd (c :: cs) = Place.comment.atEnd cs := by
  rw [atEnd_cons, Place.step, if_neg (by simpa using goesOn)]

theorem atEnd_comment_open : Place.plain.atEnd ('/' :: '*' :: cs) = Place.comment.atEnd cs :=
  atEnd_cons

theorem afterComment_cons (goesOn : ¬ (c = '*' ∧ cs.head? = some '/')) :
    afterComment (c :: cs) = afterComment cs := by
  rw [afterComment.eq_def]
  split
  · rename_i rest same
    cases same
    exact absurd ⟨rfl, rfl⟩ goesOn
  · rename_i same
    cases same
    rfl
  · rename_i same
    cases same

/-- A comment that is closed is closed whatever follows. -/
theorem afterComment_append (closed : Place.comment.atEnd cs ≠ .comment) (more : List Char) :
    afterComment (cs ++ more) = afterComment cs ++ more ∧
      Place.comment.atEnd cs = Place.plain.atEnd (afterComment cs) := by
  induction cs with
  | nil => exact absurd atEnd_nil closed
  | cons c cs ih =>
    by_cases closes : c = '*' ∧ cs.head? = some '/'
    · obtain ⟨rfl, found⟩ := closes
      obtain ⟨rest, rfl⟩ := List.head?_eq_some_iff.1 found
      exact ⟨rfl, atEnd_comment_close⟩
    · rw [atEnd_comment closes] at closed ⊢
      obtain ⟨same, place⟩ := ih closed
      have stillGoesOn : ¬ (c = '*' ∧ (cs ++ more).head? = some '/') := by
        cases cs with
        | nil => exact absurd atEnd_nil closed
        | cons next rest => exact closes
      rw [List.cons_append, afterComment_cons stillGoesOn, afterComment_cons closes]
      exact ⟨same, place⟩

theorem skipComments_nil : skipComments [] = [] :=
  List.length_eq_zero_iff.1 (Nat.le_zero.1 (length_skipComments_le []))

theorem skipComments_open : skipComments ('/' :: '*' :: cs) = skipComments (afterComment cs) := by
  rw [skipComments]

theorem skipComments_eq_self (noComment : c = '/' → cs.head? ≠ some '*') :
    skipComments (c :: cs) = c :: cs := by
  rw [skipComments.eq_def]
  split
  · rename_i rest same
    cases same
    exact absurd rfl (noComment rfl)
  · rfl

/-- What follows the comments starts with none. -/
theorem noComment_of_skipComments (skipped : skipComments cs = c :: rest) :
    c = '/' → rest.head? ≠ some '*' := by
  fun_induction skipComments cs with
  | case1 cs ih => exact ih skipped
  | case2 cs noComment =>
    intro slash star
    obtain ⟨behind, rfl⟩ := List.head?_eq_some_iff.1 star
    exact noComment behind (by rw [skipped, slash])

/-- Comments that are closed are skipped whatever follows. -/
theorem skipComments_append (closed : Place.plain.atEnd cs ≠ .comment) (more : List Char) :
    skipComments (cs ++ more) = skipComments (skipComments cs ++ more) ∧
      Place.plain.atEnd cs = Place.plain.atEnd (skipComments cs) := by
  fun_induction skipComments cs with
  | case1 cs ih =>
    rw [atEnd_comment_open] at closed ⊢
    obtain ⟨same, place⟩ := afterComment_append closed more
    rw [place] at closed ⊢
    obtain ⟨sameBehind, placeBehind⟩ := ih closed
    refine ⟨?_, placeBehind⟩
    rw [List.cons_append, List.cons_append, skipComments_open, same, sameBehind]
  | case2 cs noComment => exact ⟨rfl, rfl⟩

theorem scan_nil (skipped : skipComments cs = []) : scan cs = [.eof] := by
  rw [scan]
  split
  · rfl
  · rename_i found
    rw [skipped] at found
    cases found

theorem scan_cons (skipped : skipComments cs = c :: rest) :
    scan cs = (lexeme c rest).1 :: scan (lexeme c rest).2 := by
  rw [scan]
  split
  · rename_i found
    rw [skipped] at found
    cases found
  · rename_i found
    rw [skipped] at found
    cases found
    rfl

/-- No comment starts with a character that is not a slash. -/
theorem scan_cons_of_ne (noSlash : c ≠ '/') :
    scan (c :: cs) = (lexeme c cs).1 :: scan (lexeme c cs).2 :=
  scan_cons (skipComments_eq_self fun slash => absurd slash noSlash)

/-- A name that ends where no name goes on. -/
theorem scan_word (reads : lexeme c (front ++ rest) = identLike (c :: (front ++ rest)))
    (named : ∀ d ∈ c :: front, isNameChar d = true) (ends : name rest = ([], rest))
    (noParen : rest.head? ≠ some '(') :
    scan (c :: (front ++ rest)) = .ident (String.ofList (c :: front)) :: scan rest := by
  have read : name (c :: (front ++ rest)) = (c :: front, rest) := by
    rw [← List.cons_append, name_append named, ends, List.append_nil]
  have ident := @identLike_ident (c :: (front ++ rest)) (by rw [read]; exact noParen)
  have notSlash : c ≠ '/' := fun slash =>
    absurd (slash ▸ named c List.mem_cons_self) (by decide)
  rw [scan_cons_of_ne notSlash, reads, ident, read]

/-- A name of a single character. -/
theorem scan_letter (reads : lexeme c cs = identLike (c :: cs)) (isName : isNameChar c = true)
    (alone : name cs = ([], cs)) (noParen : cs.head? ≠ some '(') :
    scan (c :: cs) = .ident (String.ofList [c]) :: scan cs :=
  @scan_word c [] cs reads (by simpa using isName) alone noParen

theorem scan_congr (same : skipComments cs = skipComments ds) : scan cs = scan ds := by
  cases skipped : skipComments ds with
  | nil => rw [scan_nil (same.trans skipped), scan_nil skipped]
  | cons c rest => rw [scan_cons (same.trans skipped), scan_cons skipped]

theorem scan_ne_nil (cs : List Char) : scan cs ≠ [] := by
  rw [scan]
  split <;> exact List.cons_ne_nil _ _

end Comments

end Lexer

end Selectors
