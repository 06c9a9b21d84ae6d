/-!
Text as selectors see it: which characters are blank, how a value is cut into words, and the
tests on characters that attribute selectors make.

`words` cuts at every blank character and keeps the pieces that are not empty, so
`words_ne_nil_of_mem` and `not_isBlank_of_mem_words` hold: a word is never empty and never holds a
blank. A character beyond ASCII is never blank.
-/

namespace Selectors

/-! ## Blank characters -/

/-- The blank characters: space, tab, line feed, carriage return and form feed, and no other. -/
def isBlank (c : Char) : Bool :=
  c == ' ' || c == '\t' || c == '\n' || c == '\r' || c == '\x0c'

/-! ## Words -/

/-- Cuts a text at every character of a kind. There is always at least one piece, and pieces may be
empty. -/
def cut (isCut : Char → Bool) : List Char → List (List Char)
  | [] => [[]]
  | c :: cs =>
    if isCut c then [] :: cut isCut cs
    else
      match cut isCut cs with
      | [] => [[c]]
      | piece :: rest => (c :: piece) :: rest

/-- The words of a text: its longest runs of characters that are not blank, in order. -/
def words (text : String) : List String :=
  ((cut isBlank text.toList).filter (fun piece => !piece.isEmpty)).map String.ofList

/-- No piece holds a character of the kind at which the text is cut. -/
theorem not_isCut_of_mem_cut {isCut : Char → Bool} {cs piece : List Char}
    (h : piece ∈ cut isCut cs) : ∀ c ∈ piece, isCut c = false := by
  induction cs generalizing piece with
  | nil => simp_all [cut]
  | cons d ds ih =>
    simp only [cut] at h
    split at h
    · rcases List.mem_cons.1 h with rfl | h
      · simp
      · exact ih h
    · rename_i hd
      split at h
      · simp_all
      · rename_i head rest heq
        rcases List.mem_cons.1 h with rfl | h
        · intro c hc
          rcases List.mem_cons.1 hc with rfl | hc
          · simpa using hd
          · exact ih (heq ▸ List.mem_cons_self) c hc
        · exact ih (heq ▸ List.mem_cons_of_mem _ h)

/-- A word holds no blank character. -/
theorem not_isBlank_of_mem_words {text word : String} (h : word ∈ words text) :
    ∀ c ∈ word.toList, isBlank c = false := by
  simp only [words, List.mem_map, List.mem_filter] at h
  obtain ⟨piece, ⟨hpiece, -⟩, rfl⟩ := h
  simpa using not_isCut_of_mem_cut hpiece

/-- A word is not empty. -/
theorem words_ne_nil_of_mem {text word : String} (h : word ∈ words text) :
    word.toList ≠ [] := by
  simp only [words, List.mem_map, List.mem_filter] at h
  obtain ⟨piece, ⟨-, hne⟩, rfl⟩ := h
  simpa using hne

/-! ## Occurrence -/

/-- The first text stands somewhere inside the second. -/
def occursIn (needle : List Char) : List Char → Bool
  | [] => needle.isEmpty
  | c :: cs => needle.isPrefixOf (c :: cs) || occursIn needle cs

/-- The second text is the first, or the first followed by a hyphen and anything. This is how a
language range covers a language tag. -/
def isDashExtension (tag value : List Char) : Bool :=
  value == tag || (tag ++ ['-']).isPrefixOf value

/-! ## Case -/

/-- Two texts are the same when ASCII letters are taken without their case. -/
def sameIgnoringCase (s t : String) : Bool := s.toLower == t.toLower

end Selectors
