import Selectors.Proofs.Borders
import Selectors.Proofs.Parsing

/-!
What can be relied on in every token of a text. No name in a token is empty, and an integer that is
written without a sign is not negative (`Token.Sound`). Both are decided in the lexer, where a name
is read only behind a test that one starts, and where the sign of a number is kept apart from its
digits.

Each reader of the lexer has a lemma, and `sound_scan` follows the text token by token. Every token
takes at least one character, so there are not many of them (`length_scan_le`).
-/

namespace Selectors

/-- An integer written without a sign is not negative. -/
def Numeric.Sound (n : Numeric) : Prop := n.signed = false → ∀ b, n.integer? = some b → 0 ≤ b.toInt

/-- A token has no empty name in it, and its number is sound. -/
def Token.Sound : Token → Prop
  | .ident name => name ≠ ""
  | .function name => name ≠ ""
  | .atKeyword name => name ≠ ""
  | .hash value _ => value ≠ ""
  | .number n => n.Sound
  | .percentage n => n.Sound
  | .dimension n unit => n.Sound ∧ unit ≠ ""
  | _ => True

namespace Lexer

variable {c : Char} {cs : List Char}

/-! ## Names -/

/-- A name is read where a character of one stands or an escape. -/
theorem name_ne_nil (starts : (cs.head?.any isNameChar || startsEscape cs) = true) :
    (name cs).1 ≠ [] := by
  cases cs with
  | nil => cases starts
  | cons c cs =>
    by_cases isName : isNameChar c = true
    · rw [name_char isName]
      exact List.cons_ne_nil _ _
    · have escaped : startsEscape (c :: cs) = true := by
        rw [List.head?_cons, Option.any_some, Bool.or_eq_true] at starts
        exact starts.resolve_left isName
      rw [name_escape isName escaped]
      exact List.cons_ne_nil _ _

/-- Where a name starts stands a character of one or an escape. A hyphen in front belongs to it. -/
theorem starts_of_startsName (starts : startsName cs = true) :
    (cs.head?.any isNameChar || startsEscape cs) = true := by
  cases cs with
  | nil => cases starts
  | cons c cs =>
    rw [List.head?_cons, Option.any_some]
    by_cases hyphen : c = '-'
    · rw [hyphen]
      rfl
    · rw [startsName_cons, if_neg hyphen, Bool.or_eq_true] at starts
      rcases starts with letter | escaped
      · simp [isNameChar, letter]
      · rw [escaped, Bool.or_true]

theorem ofList_ne_empty {ds : List Char} (full : ds ≠ []) : String.ofList ds ≠ "" := by
  rw [Ne, String.ofList_eq_empty_iff]
  exact full

theorem ofList_name_ne_empty (starts : startsName cs = true) : String.ofList (name cs).1 ≠ "" :=
  ofList_ne_empty (name_ne_nil (starts_of_startsName starts))

/-! ## Tokens -/

/-- The sign alone makes a number negative, so digits without one stand for what they say. -/
theorem sound_number (cs : List Char) : (number cs).1.Sound := by
  intro unsigned b found
  have noSign : (sign cs).1 = none :=
    Option.isNone_iff_eq_none.1 (Option.isSome_eq_false_iff.1 unsigned)
  simp only [number, noSign] at found
  split at found
  · rw [int64?_eq_some_iff.1 found]
    exact Int.natCast_nonneg _
  · cases found

theorem sound_numeric (cs : List Char) : (numeric cs).1.Sound := by
  have sound := sound_number cs
  unfold numeric
  dsimp only
  split
  · rename_i unit
    exact ⟨sound, ofList_name_ne_empty unit⟩
  · split <;> exact sound

theorem sound_identLike (starts : startsName cs = true) : (identLike cs).1.Sound := by
  have full := name_ne_nil (starts_of_startsName starts)
  unfold identLike
  split <;> (rename_i read; rw [read] at full; exact ofList_ne_empty full)

theorem sound_hash (cs : List Char) : (hash cs).1.Sound := by
  unfold hash
  split
  · rename_i starts
    exact ofList_ne_empty (name_ne_nil starts)
  · trivial

theorem sound_stringToken (quote : Char) (cs : List Char) : (stringToken quote cs).1.Sound := by
  unfold stringToken
  split <;> trivial

theorem sound_of_punctuation? {token : Token} (found : punctuation? c = some token) :
    token.Sound := by
  unfold punctuation? at found
  split at found <;> cases found <;> trivial

theorem sound_lexeme (c : Char) (cs : List Char) : (lexeme c cs).1.Sound := by
  unfold lexeme
  split
  · trivial
  split
  · exact sound_stringToken c cs
  split
  · exact sound_hash cs
  split
  · rename_i token found
    exact sound_of_punctuation? found
  split
  · exact sound_numeric (c :: cs)
  split
  · rename_i keyword
    exact ofList_name_ne_empty (Bool.and_eq_true_iff.1 keyword).2
  split
  · rename_i starts
    exact sound_identLike starts
  · trivial

/-! ## Whole texts -/

theorem sound_scan (cs : List Char) : ∀ token ∈ scan cs, token.Sound := by
  fun_induction scan cs with
  | case1 => exact List.forall_mem_singleton.2 trivial
  | case2 cs c rest _ ih => exact List.forall_mem_cons.2 ⟨sound_lexeme c rest, ih⟩

/-- There is a character for every token but the last one. -/
theorem length_scan_le (cs : List Char) : (scan cs).length ≤ cs.length + 1 := by
  fun_induction scan cs with
  | case1 => exact Nat.succ_le_succ (Nat.zero_le _)
  | case2 cs c rest skipped ih =>
    have taken := length_lexeme_le c rest
    have left := length_skipComments_le cs
    rw [skipped] at left
    rw [List.length_cons] at left ⊢
    omega

theorem length_normalize_le (cs : List Char) : (normalize cs).length ≤ cs.length := by
  fun_induction normalize cs with
  | case1 => exact Nat.le_refl _
  | case2 cs ih =>
    simp only [List.length_cons]
    omega
  | case3 c cs _ ih => exact Nat.succ_le_succ ih

end Lexer

theorem sound_tokenize (text : String) : ∀ token ∈ tokenize text, token.Sound :=
  Lexer.sound_scan _

theorem length_tokenize_le (text : String) : (tokenize text).length ≤ text.length + 1 := by
  have scanned := Lexer.length_scan_le (Lexer.normalize text.toList)
  have uniform := Lexer.length_normalize_le text.toList
  rw [String.length_toList] at uniform
  exact Nat.le_trans scanned (Nat.succ_le_succ uniform)

end Selectors
