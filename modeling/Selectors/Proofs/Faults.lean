import Selectors.Proofs.Parsing

/-!
Where a fault is noticed. Each fault is about one token of the text, but the position of an error is
not always the place of this token. A reader that only looks at the next token reports where this
token stands. One that has taken the token off before it looks reports the place behind it, and a
namespace name is found undeclared when its separator has been read too.

`SyntaxFault.lag` counts these tokens, and `parse_error_position` says that nothing else is between a
position and the token that its fault is about. So the position is no token of the text at all if the
end of the text was taken off.
-/

namespace Selectors

open Grammar

/-! ## What a fault is about -/

namespace SyntaxFault

/-- The token that the text of a fault ends with. -/
def found? : SyntaxFault → Option Token
  | .expectedSelector found | .expectedSelectorAfterCombinator found | .unexpected found
  | .expectedClassName found | .expectedAttributeName found | .expectedOperator found
  | .expectedAttributeValue found | .expectedBracket found | .expectedPseudoElementName found
  | .expectedPseudoClassName found | .expectedSelectorInNegation found
  | .expectedParenthesis found => some found
  | .invalidId _ | .undeclaredNamespace _ | .unknownOperator _ | .unsupportedFlag _
  | .pseudoElementInNegation | .unclosedArguments => none

/-- Whether a token is the one that a fault complains of. -/
def IsAbout : SyntaxFault → Token → Prop
  | .invalidId value, token => token = .hash value .unrestricted
  | .undeclaredNamespace name, token => token = .ident name
  | .unknownOperator lead, token => token = .delim lead
  | .unsupportedFlag flag, token => token = .ident flag
  | .pseudoElementInNegation, token => ∃ name, token = .ident name
  | .unclosedArguments, token => token = .eof
  | fault, token => fault.found? = some token

/-- How many tokens have been read from the one that a fault is about when it is noticed. -/
def lag : SyntaxFault → Nat
  | .expectedSelector _ | .expectedSelectorAfterCombinator _ | .unexpected _ | .invalidId _
  | .expectedAttributeName _ | .unknownOperator _ | .expectedOperator _
  | .expectedSelectorInNegation _ => 0
  | .expectedClassName _ | .expectedAttributeValue _ | .unsupportedFlag _ | .expectedBracket _
  | .expectedPseudoElementName _ | .expectedPseudoClassName _ | .pseudoElementInNegation
  | .expectedParenthesis _ | .unclosedArguments => 1
  | .undeclaredNamespace _ => 2

theorem exists_text_eq {fault : SyntaxFault} {found : Token} (shown : fault.found? = some found) :
    ∃ front, fault.text = front ++ found.text := by
  cases fault <;> cases shown <;> exact ⟨_, rfl⟩

/-- A fault that shows a token is about this token. -/
theorem found?_eq_some {fault : SyntaxFault} {token : Token} (about : fault.IsAbout token)
    (shown : fault.found?.isSome = true) : fault.found? = some token := by
  cases fault with
  | invalidId | undeclaredNamespace | unknownOperator | unsupportedFlag | pseudoElementInNegation
  | unclosedArguments => cases shown
  | _ => exact about

/-- Only a fault about a name is noticed later than one token behind. -/
theorem lag_le_one {fault : SyntaxFault} (about : fault.IsAbout .eof) : fault.lag ≤ 1 := by
  cases fault with
  | undeclaredNamespace name => cases about
  | _ => simp [lag]

end SyntaxFault

/-! ## The readers -/

namespace Reading

variable {table : Namespaces} {star : Bool} {whole tokens rest : List Token} {e : Failure}

/-- Tokens that are left when the end of the text has not been read. -/
structure Remain (whole tokens : List Token) : Prop where
  suffix : tokens <:+ whole
  ended : Ended tokens

/-- A failure is about a token, and as many tokens have been read from it as its fault says. Unless
it is the end of the text, something is left. -/
structure Concerns (whole : List Token) (e : Failure) (token : Token) (rest : List Token) :
    Prop where
  remain : Remain whole (token :: rest)
  about : e.fault.IsAbout token
  rest_eq : e.rest = (token :: rest).drop e.fault.lag
  eq_eof : e.rest = [] → token = .eof

/-- A failure is about one of the tokens. -/
def Located (whole : List Token) (e : Failure) : Prop :=
  ∃ token rest, Concerns whole e token rest

namespace Remain

theorem of_append {first : List Token} (here : Remain whole tokens) (split : tokens = first ++ rest)
    (inside : .eof ∉ first) : Remain whole rest :=
  ⟨.trans ⟨first, split.symm⟩ here.suffix, Ended.of_append (split ▸ here.ended) inside⟩

theorem skipBlanks (here : Remain whole tokens) : Remain whole (skipBlanks tokens) := by
  obtain ⟨front, blanks, split⟩ := exists_blanks tokens
  exact here.of_append split blanks.eof_notMem

theorem tail {token : Token} (here : Remain whole (token :: tokens)) (goesOn : token ≠ .eof) :
    Remain whole tokens :=
  here.of_append List.singleton_append.symm (by simpa using goesOn.symm)

/-- A fault about the next token, which has not been read. -/
theorem located {fault : SyntaxFault} (here : Remain whole tokens)
    (about : fault.IsAbout (next tokens)) (unread : fault.lag = 0) :
    Located whole ⟨fault, tokens⟩ := by
  cases tokens with
  | nil => exact absurd here.ended not_ended_nil
  | cons token rest =>
    exact ⟨token, rest, here, about, by rw [unread]; rfl, (absurd · (List.cons_ne_nil _ _))⟩

/-- A fault about the next token, which has been read. -/
theorem located_tail {fault : SyntaxFault} (here : Remain whole tokens)
    (about : fault.IsAbout (next tokens)) (read : fault.lag = 1) :
    Located whole ⟨fault, tokens.tail⟩ := by
  cases tokens with
  | nil => exact absurd here.ended not_ended_nil
  | cons token rest =>
    refine ⟨token, rest, here, about, by rw [read]; rfl, fun nothing => ?_⟩
    by_contra goesOn
    have behind : Ended rest := (here.tail goesOn).ended
    exact not_ended_nil (nothing ▸ behind)

end Remain

/-! ### Names and attributes -/

theorem qualifiedName_located (here : Remain whole tokens)
    (failed : qualifiedName table star tokens = .error e) : Located whole e := by
  unfold qualifiedName at failed
  split at failed
  · rename_i lead more
    split at failed
    · rename_i part separated
      split at failed
      · cases failed
      · cases failed
        refine ⟨.ident lead, more, here, rfl, ?_, ?_⟩
        · rw [(afterSeparator_sound separated).1]
          rfl
        · rw [(afterSeparator_sound separated).1]
          exact fun nothing => absurd nothing (List.cons_ne_nil _ _)
    · cases failed
  · split at failed
    · cases failed
    · split at failed <;> cases failed
  · cases failed

theorem typeSelector_located (here : Remain whole tokens)
    (failed : typeSelector table tokens = .error e) : Located whole e := by
  unfold typeSelector at failed
  split at failed
  · rename_i named
    cases failed
    exact qualifiedName_located here named
  · cases failed
  · cases failed

theorem typeSelector_remain (here : Remain whole tokens) {types : Parsed Compound tokens}
    (read : typeSelector table tokens = .ok types) : Remain whole types.rest := by
  obtain ⟨first, split, spells⟩ := typeSelector_sound (read ▸ types.yields)
  exact here.of_append split spells.eof_notMem

theorem operator_located (here : Remain whole tokens) (failed : operator tokens = .error e) :
    Located whole e := by
  unfold operator at failed
  split at failed
  · cases failed
  · split at failed
    · cases failed
    · cases failed
      exact here.located rfl rfl
  · cases failed
    exact here.located rfl rfl

theorem operator_remain (here : Remain whole tokens) {sign : Parsed AttributeOperator tokens}
    (read : operator tokens = .ok sign) : Remain whole sign.rest := by
  obtain ⟨first, split, spells⟩ := operator_sound (read ▸ sign.yields)
  refine here.of_append split ?_
  generalize sign.value = o at spells
  cases spells <;> simp

theorem operand_located (here : Remain whole tokens) (failed : operand tokens = .error e) :
    Located whole e := by
  unfold operand at failed
  split at failed
  · cases failed
  · cases failed
  · cases failed
    exact here.located_tail rfl rfl

theorem operand_remain (here : Remain whole tokens) {value : Parsed String tokens}
    (read : operand tokens = .ok value) : Remain whole value.rest := by
  obtain ⟨token, split, spells⟩ := operand_sound (read ▸ value.yields)
  refine here.of_append (split.trans List.singleton_append.symm) ?_
  generalize value.value = v at spells
  cases spells <;> simp

theorem closingBracket_located (here : Remain whole tokens)
    (failed : closingBracket tokens = .error e) : Located whole e := by
  unfold closingBracket at failed
  split at failed
  · cases failed
  · cases failed
    exact here.located_tail rfl rfl
  · cases failed
    exact here.located_tail rfl rfl

theorem comparison_located (here : Remain whole tokens) (failed : comparison tokens = .error e) :
    Located whole e := by
  unfold comparison at failed
  split at failed
  · rename_i signFailed
    cases failed
    exact operator_located here signFailed
  · rename_i sign signRead
    have atOperand := (operator_remain here signRead).skipBlanks
    split at failed
    · rename_i operandFailed
      cases failed
      exact operand_located atOperand operandFailed
    · rename_i value valueRead
      have atBracket := (operand_remain atOperand valueRead).skipBlanks
      split at failed
      · rename_i bracketFailed
        cases failed
        exact closingBracket_located atBracket bracketFailed
      · cases failed

theorem attributeSelector_located (here : Remain whole tokens)
    (failed : attributeSelector table tokens = .error e) : Located whole e := by
  have atName := here.skipBlanks
  unfold attributeSelector at failed
  split at failed
  · rename_i named
    cases failed
    exact qualifiedName_located atName named
  · rename_i namespaceUrl? name rest le named
    obtain ⟨first, split, spells⟩ := qualifiedName_sound named
    have atComparison := (atName.of_append split spells.eof_notMem).skipBlanks
    split at failed
    · cases failed
    · split at failed
      · rename_i compared
        cases failed
        exact comparison_located atComparison compared
      · cases failed
  · cases failed
    exact atName.located rfl rfl

/-! ### Compounds -/

theorem error_of_keep {token : Token} {result : Except Failure (Parsed (List Token) tokens)}
    (failed : keep token result = .error e) : result = .error e := by
  cases result with
  | ok p => cases failed
  | error e => exact congrArg _ (Except.error.inj failed)

/-- The arguments of a pseudo-class only end too early with the text. -/
theorem arguments_located {depth : Nat} (here : Remain whole tokens)
    (failed : arguments depth tokens = .error e) : Located whole e := by
  induction tokens generalizing depth with
  | nil => exact absurd here.ended not_ended_nil
  | cons token tokens ih =>
    cases token with
    | eof =>
      cases failed
      exact here.located_tail rfl rfl
    | rightParen =>
      cases depth with
      | zero => cases failed
      | succ depth => exact ih (here.tail (by simp)) (error_of_keep failed)
    | _ => exact ih (here.tail (by simp)) (error_of_keep failed)

theorem step_located (here : Remain whole tokens) (failed : step table tokens = .error e) :
    Located whole e := by
  unfold step at failed
  split at failed
  · cases failed
  · cases failed
    exact here.located rfl rfl
  · cases failed
  · cases failed
    exact (here.tail (by simp)).located_tail rfl rfl
  · split at failed
    · rename_i selectorFailed
      cases failed
      exact attributeSelector_located (here.tail (by simp)) selectorFailed
    · cases failed
  · cases failed
  · cases failed
    exact ((here.tail (by simp)).tail (by simp)).located_tail rfl rfl
  · split at failed <;> cases failed
  · split at failed
    · cases failed
    · split at failed
      · rename_i argumentsFailed
        cases failed
        exact arguments_located ((here.tail (by simp)).tail (by simp)) argumentsFailed
      · cases failed
  · cases failed
    exact (here.tail (by simp)).located_tail rfl rfl
  · cases failed

theorem step_remain (here : Remain whole tokens) {simple : Simple} {lt : rest.length < tokens.length}
    (read : step table tokens = .ok (.member simple rest lt)) : Remain whole rest := by
  obtain ⟨first, split, spells⟩ := step_sound read
  exact here.of_append split spells.eof_notMem

theorem members_remain (here : Remain whole tokens) {part : Parsed Part tokens}
    (read : members table tokens = .ok part) : Remain whole part.rest := by
  obtain ⟨first, ending, split, spells, spellsEnding⟩ := members_sound (read ▸ part.yields)
  have inside : .eof ∉ ending := by
    generalize part.value.pseudoElement? = pseudoElement? at spellsEnding
    cases spellsEnding <;> simp
  rw [← List.append_assoc] at split
  exact here.of_append split (by simp [spells.eof_notMem, inside])

/-- Where a pseudo-element has been read, its name was the last token. -/
theorem located_of_pseudoElement (here : Remain whole tokens) {part : Parsed Part tokens}
    (read : members table tokens = .ok part) (ending : part.value.pseudoElement?.isSome = true) :
    Located whole ⟨.pseudoElementInNegation, part.rest⟩ := by
  obtain ⟨first, written, split, spells, spellsEnding⟩ := members_sound (read ▸ part.yields)
  have last : ∃ front name, written = front ++ [.ident name] ∧ .eof ∉ front := by
    generalize part.value.pseudoElement? = pseudoElement? at spellsEnding ending
    cases spellsEnding with
    | missing => cases ending
    | doubled name => exact ⟨[.colon, .colon], name, rfl, by simp⟩
    | @single name => exact ⟨[.colon], name, rfl, by simp⟩
  obtain ⟨front, name, rfl, inside⟩ := last
  rw [List.append_assoc, ← List.append_assoc] at split
  have atName : Remain whole (.ident name :: part.rest) :=
    here.of_append split (by simp [spells.eof_notMem, inside])
  refine ⟨.ident name, part.rest, atName, ⟨name, rfl⟩, rfl, fun nothing => ?_⟩
  exact absurd (nothing ▸ (members_remain here read).ended) not_ended_nil

/-- The members of a compound, those of its negations among them. -/
theorem members_located (here : Remain whole tokens) (failed : members table tokens = .error e) :
    Located whole e := by
  -- a negation is left with two shorter rests: its own members, and what follows its parenthesis
  induction size : tokens.length using Nat.strongRecOn generalizing tokens with
  | ind n ih =>
    unfold members at failed
    split at failed
    · rename_i stepFailed
      cases failed
      exact step_located here stepFailed
    · cases failed
    · cases failed
    · rename_i simple rest lt stepped
      split at failed
      · rename_i laterFailed
        cases failed
        exact ih rest.length (size ▸ lt) (step_remain here stepped) laterFailed rfl
      · cases failed
    · rename_i opened lt stepped
      obtain ⟨name, shape, -⟩ := step_sound stepped
      have atTypes : Remain whole (skipBlanks opened) := by
        rw [shape] at here
        exact ((here.tail (by simp)).tail (by simp)).skipBlanks
      split at failed
      · rename_i typesFailed
        cases failed
        exact typeSelector_located atTypes typesFailed
      · rename_i types typed
        have atInner := typeSelector_remain atTypes typed
        have typesLe := types.rest_le
        have innerShorter : types.rest.length < n := by
          have := length_skipBlanks_le opened
          omega
        dsimp only at failed
        split at failed
        · rename_i innerFailed
          cases failed
          exact ih _ innerShorter atInner innerFailed rfl
        · rename_i inner innerRead
          have atParenthesis := (members_remain atInner innerRead).skipBlanks
          split at failed
          · rename_i ending
            cases failed
            exact located_of_pseudoElement atInner innerRead ending
          · split at failed
            · cases failed
              exact atTypes.located rfl rfl
            · split at failed
              · rename_i rest closed
                split at failed
                · rename_i laterFailed
                  cases failed
                  rw [closed] at atParenthesis
                  have laterShorter : rest.length < n := by
                    have innerLe := inner.rest_le
                    have closedLe := length_skipBlanks_le inner.rest
                    rw [closed, List.length_cons] at closedLe
                    omega
                  exact ih _ laterShorter (atParenthesis.tail (by simp)) laterFailed rfl
                · cases failed
              · cases failed
                exact atParenthesis.located_tail rfl rfl

theorem compound_located (here : Remain whole tokens) (failed : compound table tokens = .error e) :
    Located whole e := by
  unfold compound at failed
  split at failed
  · rename_i typesFailed
    cases failed
    exact typeSelector_located here typesFailed
  · rename_i types typed
    exact members_located (typeSelector_remain here typed) (map_eq_error_iff.1 failed)

theorem compound_remain (here : Remain whole tokens) {part : Parsed Part tokens}
    (read : compound table tokens = .ok part) (full : part.rest.length ≠ tokens.length) :
    Remain whole part.rest := by
  obtain ⟨first, split, spells⟩ := compound_sound (read ▸ part.yields) full
  exact here.of_append split spells.eof_notMem

/-! ### Chains and lists -/

theorem chainFrom_located {left : Chain} (here : Remain whole tokens)
    (failed : chainFrom table left tokens = .error e) : Located whole e := by
  induction size : tokens.length using Nat.strongRecOn generalizing tokens left with
  | ind n ih =>
    unfold chainFrom at failed
    split at failed
    · cases failed
    · rename_i k combined
      obtain ⟨sign, split, spells⟩ := combinator?_sound combined
      have atPart := here.of_append split spells.eof_notMem
      split at failed
      · rename_i partFailed
        cases failed
        exact compound_located atPart partFailed
      · rename_i part partRead
        split at failed
        · cases failed
          exact atPart.located rfl rfl
        · rename_i full
          dsimp only at failed
          split at failed
          · cases failed
          · split at failed
            · rename_i laterFailed
              cases failed
              have shorter : part.rest.length < n := by
                have partLe := part.rest_le
                have signLe := k.rest_le
                omega
              exact ih _ shorter (compound_remain atPart partRead full) laterFailed rfl
            · cases failed

theorem selector_located (here : Remain whole tokens) (failed : selector table tokens = .error e) :
    Located whole e := by
  have atPart := here.skipBlanks
  unfold selector at failed
  split at failed
  · rename_i partFailed
    cases failed
    exact compound_located atPart partFailed
  · rename_i part partRead
    dsimp only at failed
    split at failed
    · cases failed
      exact atPart.located rfl rfl
    · rename_i full
      have atChain := compound_remain atPart partRead full
      split at failed
      · cases failed
      · exact chainFrom_located atChain (map_eq_error_iff.1 failed)

theorem selectorList_located (here : Remain whole tokens)
    (failed : selectorList table tokens = .error e) : Located whole e := by
  induction size : tokens.length using Nat.strongRecOn generalizing tokens with
  | ind n ih =>
    unfold selectorList at failed
    split at failed
    · rename_i selectorFailed
      cases failed
      exact selector_located here selectorFailed
    · rename_i s selectorRead
      obtain ⟨first, split, spells⟩ := selector_sound (selectorRead ▸ s.yields)
      have behind := here.of_append split spells.eof_notMem
      split at failed
      · rename_i rest shape
        have shorter : rest.length < n := by
          have le := s.rest_le
          rw [shape, List.length_cons] at le
          omega
        rw [shape] at behind
        exact ih _ shorter (behind.tail (by simp)) (map_eq_error_iff.1 failed) rfl
      · cases failed
      · cases failed
      · rename_i shape
        cases failed
        rw [shape] at behind
        exact behind.located rfl rfl

end Reading

/-! ## Positions -/

namespace Reading.Concerns

variable {whole rest : List Token} {e : Failure} {token : Token}
  (concerns : Concerns whole e token rest)
include concerns

/-- Nothing is left exactly if the end of the text has been read. -/
theorem rest_ne_nil_iff : e.rest ≠ [] ↔ e.fault.lag = 0 ∨ token ≠ .eof := by
  constructor
  · intro left
    by_contra other
    obtain ⟨late, rfl⟩ : e.fault.lag ≠ 0 ∧ token = .eof := by simpa using other
    rw [concerns.rest_eq, concerns.remain.ended.eq_nil] at left
    refine left (List.drop_eq_nil_iff.2 ?_)
    rw [List.length_singleton]
    omega
  · rintro (soon | goesOn)
    · rw [concerns.rest_eq, soon]
      exact List.cons_ne_nil _ _
    · exact fun nothing => goesOn (concerns.eq_eof nothing)

/-- As many tokens as have been read there are. -/
theorem lag_le : e.fault.lag ≤ (token :: rest).length := by
  by_cases nothing : e.rest = []
  -- the fault is about the end of the text, so it is not about a name
  · have := SyntaxFault.lag_le_one (concerns.eq_eof nothing ▸ concerns.about)
    rw [List.length_cons]
    omega
  · rw [concerns.rest_eq, List.drop_eq_nil_iff] at nothing
    omega

/-- What has been read lies in front of the token, or has been read from it on. -/
theorem position : ∃ place, whole[place]? = some token ∧
    whole.length - e.rest.length = place + e.fault.lag := by
  obtain ⟨before, split⟩ := concerns.remain.suffix
  have lagLe := concerns.lag_le
  refine ⟨before.length, by simp [← split], ?_⟩
  rw [concerns.rest_eq, List.length_drop, ← split, List.length_append]
  omega

end Reading.Concerns

/-- **The position of an error is known from the token that its fault is about.** It is the place of
this token, or as many places behind it as the fault says. If the text of the fault shows a token, it
is this one. The position is behind all tokens exactly if the token is the end of the text and has
been read. -/
theorem parse_error_position {text : String} {table : Namespaces} {e : SyntaxError}
    (failed : parse text table = .error e) :
    ∃ place token, (tokenize text)[place]? = some token ∧ e.fault.IsAbout token ∧
      (e.fault.found?.isSome = true → ∃ front, e.fault.text = front ++ token.text) ∧
      e.position = place + e.fault.lag ∧
      (e.position < (tokenize text).length ↔ e.fault.lag = 0 ∨ token ≠ .eof) := by
  unfold parse at failed
  dsimp only at failed
  split at failed
  · cases failed
  rename_i failure read
  cases failed
  have here : Reading.Remain (tokenize text) (tokenize text) :=
    ⟨List.suffix_rfl, ended_tokenize text⟩
  obtain ⟨token, rest, concerns⟩ := Reading.selectorList_located here read
  obtain ⟨place, found, position⟩ := concerns.position
  have text (shown : failure.fault.found?.isSome = true) :=
    SyntaxFault.exists_text_eq (SyntaxFault.found?_eq_some concerns.about shown)
  refine ⟨place, token, found, concerns.about, text, position, ?_⟩
  rw [← concerns.rest_ne_nil_iff, ← List.length_pos_iff]
  have full := List.length_pos_of_mem (List.mem_of_getElem? found)
  dsimp only
  omega

/-- The error that a result is, if it is one. -/
def error? {ε α : Type} : Except ε α → Option ε
  | .error e => some e
  | .ok _ => none

theorem eq_error_of_error? {ε α : Type} {result : Except ε α} {e : ε}
    (found : error? result = some e) : result = .error e := by
  cases result with
  | ok value => cases found
  | error e' => exact congrArg _ (Option.some.inj found)

/-- In `a b )` the parenthesis is reported where it stands. -/
theorem parse_error_position_of_parenthesis :
    let fault : SyntaxFault := .expectedSelectorAfterCombinator .rightParen
    parse "a b )" {} = .error ⟨fault, 4⟩ ∧ ∃ place token, (tokenize "a b )")[place]? = some token ∧
      fault.IsAbout token ∧
      (fault.found?.isSome = true → ∃ front, fault.text = front ++ token.text) ∧
      4 = place + fault.lag ∧ (4 < (tokenize "a b )").length ↔ fault.lag = 0 ∨ token ≠ .eof) := by
  intro fault
  have failed : parse "a b )" {} = .error ⟨fault, 4⟩ := eq_error_of_error? (by decide +kernel)
  exact ⟨failed, parse_error_position failed⟩

/-- In `.` the end of the text is reported behind all tokens, and in `.>a` the token that was found
is not the one at the position of the error. -/
theorem parse_error_behind_its_token :
    (parse "." {} = .error ⟨.expectedClassName .eof, 2⟩ ∧ (tokenize ".").length = 2) ∧
    (parse ".>a" {} = .error ⟨.expectedClassName (.delim '>'), 2⟩ ∧
      (tokenize ".>a")[2]? = some (.ident "a")) := by
  refine ⟨⟨eq_error_of_error? ?_, ?_⟩, eq_error_of_error? ?_, ?_⟩ <;> decide +kernel

end Selectors
