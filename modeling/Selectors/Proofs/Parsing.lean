import Selectors.Proofs.GrammarComplete

/-!
Parsing is the grammar. The tokens of a text end with the end of the text, and `parse` gives
exactly the selectors that they spell.
-/

namespace Selectors

open Grammar

/-! ## The end of the tokens -/

namespace Lexer

theorem numeric_ne_eof (cs : List Char) : (numeric cs).1 ≠ .eof := by
  unfold numeric
  dsimp only
  split
  · nofun
  · split <;> nofun

theorem punctuation_ne_eof {c : Char} {token : Token} (found : punctuation? c = some token) :
    token ≠ .eof := by
  intro same
  rw [same] at found
  unfold punctuation? at found
  split at found <;> cases found

/-- No character starts the end of the text. -/
theorem lexeme_ne_eof (c : Char) (cs : List Char) : (lexeme c cs).1 ≠ .eof := by
  unfold lexeme
  split
  · nofun
  split
  · unfold stringToken
    split <;> nofun
  split
  · unfold hash
    split <;> nofun
  split
  · rename_i token found
    exact punctuation_ne_eof found
  split
  · exact numeric_ne_eof _
  split
  · nofun
  split
  · unfold identLike
    split <;> nofun
  · nofun

theorem ended_scan (cs : List Char) : Ended (scan cs) := by
  fun_induction scan cs with
  | case1 => exact ⟨[], rfl, List.not_mem_nil⟩
  | case2 cs c rest _ ih =>
    obtain ⟨body, same, notMem⟩ := ih
    refine ⟨(lexeme c rest).1 :: body, by rw [same, List.cons_append], ?_⟩
    rw [List.mem_cons, not_or]
    exact ⟨(lexeme_ne_eof c rest).symm, notMem⟩

end Lexer

theorem ended_tokenize (text : String) : Ended (tokenize text) := Lexer.ended_scan _

/-! ## Parsing -/

variable {text : String} {table : Namespaces} {selectors : List Selector}

theorem parse_eq_ok_iff_selectorList :
    parse text table = .ok selectors ↔
      Reading.selectorList table (tokenize text) = .ok selectors := by
  unfold parse
  dsimp only
  cases Reading.selectorList table (tokenize text) with
  | ok selectors => simp
  | error e => simp

/-- What is read from a text is what its tokens spell. -/
theorem spellsList_of_parse (parsed : parse text table = .ok selectors) :
    SpellsList table (tokenize text) selectors :=
  Reading.selectorList_sound (ended_tokenize text) (parse_eq_ok_iff_selectorList.1 parsed)

/-- What the tokens of a text spell is read from it. -/
theorem Grammar.SpellsList.parse_eq (spells : SpellsList table (tokenize text) selectors) :
    parse text table = .ok selectors :=
  parse_eq_ok_iff_selectorList.2 (Reading.selectorList_complete spells)

/-- **The parser accepts exactly its grammar and gives the tree of the derivation.** For every text
and every table of namespaces, parsing succeeds if and only if the tokens of the text spell a list
of selectors, and then it gives this list. -/
theorem parse_eq_ok_iff_spellsList (text : String) (table : Namespaces)
    (selectors : List Selector) :
    parse text table = .ok selectors ↔ SpellsList table (tokenize text) selectors :=
  ⟨spellsList_of_parse, SpellsList.parse_eq⟩

end Selectors
