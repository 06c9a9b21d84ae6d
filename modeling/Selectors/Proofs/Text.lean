import Selectors.Text

/-!
What the tests on text say: `occursIn` and `isDashExtension` as statements about lists of
characters, equality without case, and the operands that are no word of any text.
-/

namespace Selectors

/-- A text occurs in another one exactly if it is a stretch of it. -/
theorem occursIn_iff {needle hay : List Char} : occursIn needle hay = true ↔ needle <:+: hay := by
  induction hay with
  | nil => simp [occursIn]
  | cons c cs ih =>
    rw [occursIn, Bool.or_eq_true, List.isPrefixOf_iff_prefix, ih, List.infix_cons_iff]

theorem isDashExtension_iff {tag value : String} :
    isDashExtension tag.toList value.toList = true ↔
      value = tag ∨ tag.toList ++ ['-'] <+: value.toList := by
  rw [isDashExtension, Bool.or_eq_true, beq_iff_eq, List.isPrefixOf_iff_prefix, String.toList_inj]

/-- Two texts are the same without case if their characters are, ASCII letters put in lower case. -/
theorem sameIgnoringCase_iff {s t : String} :
    sameIgnoringCase s t = true ↔ s.toList.map Char.toLower = t.toList.map Char.toLower := by
  have lowered (u : String) : u.toLower.toList = u.toList.map Char.toLower := String.toList_map
  rw [sameIgnoringCase, beq_iff_eq, ← String.toList_inj, lowered, lowered]

/-- The empty text is no word. -/
theorem empty_notMem_words (text : String) : "" ∉ words text := by
  intro h
  exact words_ne_nil_of_mem h rfl

/-- A text with a blank character in it is no word. -/
theorem notMem_words_of_any_isBlank {text operand : String}
    (h : operand.toList.any isBlank = true) : operand ∉ words text := by
  intro member
  obtain ⟨c, inside, blank⟩ := List.any_eq_true.1 h
  rw [not_isBlank_of_mem_words member c inside] at blank
  cases blank

end Selectors
