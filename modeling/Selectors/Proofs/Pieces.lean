import Selectors.Proofs.Parsing

/-!
The tokens of each selector of a text. Tokens are cut at the commas outside parentheses (`pieces`),
and what stands between the parentheses of functional pseudo-classes is left out (`written`). Both
go by parentheses alone. That the first one cuts a text into the selectors that were read follows
because the tokens of a selector are `Level` (`SpellsList.forall₂_pieces`).
-/

namespace Selectors

open Grammar
open Reading (QualifiedName)

/-! ## The tokens of one selector -/

/-- How many parentheses are open behind a token, if there are `depth` in front of it. -/
def nest (depth : Nat) (token : Token) : Nat :=
  if opens token then depth + 1 else if token = .rightParen then depth - 1 else depth

/-- Tokens cut at the commas outside parentheses, up to the end of the text. -/
def pieces (depth : Nat) : List Token → List (List Token)
  | [] => [[]]
  | token :: rest =>
    if token = .eof then [[]]
    else if token = .comma ∧ depth = 0 then [] :: pieces 0 rest
    else (pieces (nest depth token) rest).modifyHead (token :: ·)

/-- The token starts a functional pseudo-class that is not a negation. -/
def takesArguments : Token → Bool
  | .function name => name.toLower != "not"
  | _ => false

/-- Tokens without the arguments of functional pseudo-classes. What is in a negation stays. `depth`
counts the parentheses that are open since arguments began, and is zero outside arguments. -/
def written : Nat → List Token → List Token
  | _, [] => []
  | 0, token :: rest => token :: written (if takesArguments token then 1 else 0) rest
  | depth + 1, token :: rest =>
    if nest (depth + 1) token = 0 then token :: written 0 rest
    else written (nest (depth + 1) token) rest

/-! ## Level tokens -/

/-- The token neither opens nor closes a parenthesis and does not end a selector. -/
def isFlat (token : Token) : Bool :=
  !opens token && token != .rightParen && token != .eof && token != .comma

/-- The token can stand in square brackets: it is a name, a string, a blank or part of an
operator. -/
def isInert : Token → Bool
  | .ident _ => true
  | .string _ => true
  | .blank => true
  | .delim c => c != '.'
  | _ => false

/-- Tokens with balanced parentheses and without commas outside of these. -/
inductive Level : List Token → Prop
  | nil : Level []
  | flat {token : Token} {rest : List Token} :
    isFlat token = true → Level rest → Level (token :: rest)
  | group {opening : Token} {inner rest : List Token} :
    opens opening = true → Balanced inner → Level rest →
    Level (opening :: (inner ++ .rightParen :: rest))

section Level

variable {token : Token} {tokens rest inner : List Token} {depth : Nat}

theorem isFlat_iff : isFlat token = true ↔
    opens token = false ∧ token ≠ .rightParen ∧ token ≠ .eof ∧ token ≠ .comma := by
  simp [isFlat, and_assoc]

theorem isFlat_of_isInert (inert : isInert token = true) : isFlat token = true := by
  cases token <;> first | rfl | cases inert

theorem nest_of_ne (notOpening : opens token = false) (notClosing : token ≠ .rightParen) :
    nest depth token = depth := by
  rw [nest, notOpening, if_neg Bool.false_ne_true, if_neg notClosing]

theorem nest_of_opens (opening : opens token = true) : nest depth token = depth + 1 :=
  if_pos opening

namespace Level

theorem of_inert (inert : ∀ t ∈ tokens, isInert t = true) : Level tokens := by
  induction tokens with
  | nil => exact .nil
  | cons token rest ih =>
    rw [List.forall_mem_cons] at inert
    exact .flat (isFlat_of_isInert inert.1) (ih inert.2)

theorem append (level : Level tokens) (other : Level rest) : Level (tokens ++ rest) := by
  induction level with
  | nil => exact other
  | flat flat _ ih => exact .flat flat ih
  | group opening balanced _ ih =>
    rw [List.cons_append, List.append_assoc]
    exact .group opening balanced ih

theorem balanced (level : Level tokens) : Balanced tokens := by
  induction level with
  | nil => exact .nil
  | flat flat _ ih =>
    obtain ⟨notOpening, notClosing, notEnd, -⟩ := isFlat_iff.1 flat
    exact .plain notOpening notClosing notEnd ih
  | group opening balanced _ ih => exact .group opening balanced ih

/-- Something in parentheses, after the colon of a pseudo-class. -/
theorem call {name : String} (balanced : Balanced inner) :
    Level (.colon :: .function name :: (inner ++ [.rightParen])) :=
  .flat rfl (.group rfl balanced .nil)

end Level

/-! ### Cutting level tokens -/

theorem pieces_cons_of_inside (notEnd : token ≠ .eof) (inside : token = .comma → depth ≠ 0) :
    pieces depth (token :: rest) = (pieces (nest depth token) rest).modifyHead (token :: ·) := by
  rw [pieces, if_neg notEnd, if_neg fun ⟨isComma, outside⟩ => inside isComma outside]

/-- Parentheses around tokens that are not cut are not cut either. -/
theorem pieces_group {opening : Token} (isOpening : opens opening = true)
    (through : ∀ more, pieces (depth + 1) (inner ++ more) =
      (pieces (depth + 1) more).modifyHead (inner ++ ·)) :
    pieces depth (opening :: (inner ++ .rightParen :: rest)) =
      (pieces depth rest).modifyHead fun more => opening :: (inner ++ .rightParen :: more) := by
  have notEnd : opening ≠ .eof := by
    rintro rfl
    cases isOpening
  have notComma : opening ≠ .comma := by
    rintro rfl
    cases isOpening
  have closing : pieces (depth + 1) (.rightParen :: rest) =
      (pieces depth rest).modifyHead (.rightParen :: ·) := pieces_cons_of_inside nofun nofun
  rw [pieces_cons_of_inside notEnd (absurd · notComma), nest_of_opens isOpening, through, closing,
    List.modifyHead_modifyHead, List.modifyHead_modifyHead]
  rfl

theorem Grammar.Balanced.pieces_append (balanced : Balanced tokens) (depth : Nat)
    (rest : List Token) :
    pieces (depth + 1) (tokens ++ rest) = (pieces (depth + 1) rest).modifyHead (tokens ++ ·) := by
  induction balanced generalizing depth rest with
  | nil => exact (congrFun List.modifyHead_id _).symm
  | @plain token more notOpening notClosing notEnd _ ih =>
    rw [List.cons_append, pieces_cons_of_inside notEnd (fun _ => Nat.succ_ne_zero _),
      nest_of_ne notOpening notClosing, ih, List.modifyHead_modifyHead]
    rfl
  | @group opening inner more isOpening _ _ ihInner ihRest =>
    rw [List.cons_append, List.append_assoc, List.cons_append,
      pieces_group isOpening (ihInner (depth + 1)), ihRest, List.modifyHead_modifyHead]
    simp [Function.comp_def]

theorem Level.pieces_append (level : Level tokens) (rest : List Token) :
    pieces 0 (tokens ++ rest) = (pieces 0 rest).modifyHead (tokens ++ ·) := by
  induction level with
  | nil => exact (congrFun List.modifyHead_id _).symm
  | @flat token more flat _ ih =>
    obtain ⟨notOpening, notClosing, notEnd, notComma⟩ := isFlat_iff.1 flat
    rw [List.cons_append, pieces_cons_of_inside notEnd (absurd · notComma),
      nest_of_ne notOpening notClosing, ih, List.modifyHead_modifyHead]
    rfl
  | @group opening inner more isOpening balanced _ ih =>
    rw [List.cons_append, List.append_assoc, List.cons_append,
      pieces_group isOpening (balanced.pieces_append 0), ih, List.modifyHead_modifyHead]
    simp [Function.comp_def]

/-- Arguments are left out whole. -/
theorem Grammar.Balanced.written_append (balanced : Balanced tokens) (depth : Nat)
    (rest : List Token) : written (depth + 1) (tokens ++ rest) = written (depth + 1) rest := by
  induction balanced generalizing depth rest with
  | nil => rfl
  | @plain token more notOpening notClosing _ _ ih =>
    rw [List.cons_append, written, nest_of_ne notOpening notClosing,
      if_neg (Nat.succ_ne_zero _), ih]
  | @group opening inner more isOpening _ _ ihInner ihRest =>
    have closing : written (depth + 2) (.rightParen :: (more ++ rest)) =
        written (depth + 1) (more ++ rest) := if_neg (Nat.succ_ne_zero _)
    rw [List.cons_append, List.append_assoc, List.cons_append, written, nest_of_opens isOpening,
      if_neg (Nat.succ_ne_zero _), ihInner, closing, ihRest]

end Level

/-! ## Selectors are level -/

section Level

variable {table : Namespaces} {tokens : List Token}

theorem Grammar.Blanks.inert (blanks : Blanks tokens) : ∀ t ∈ tokens, isInert t = true := by
  intro t member
  rw [blanks t member]
  rfl

theorem Grammar.SpellsName.inert {star : Bool} {name : QualifiedName}
    (spells : SpellsName table star tokens name) : ∀ t ∈ tokens, isInert t = true := by
  have part {token : Token} {name? : Option String} (spells : SpellsLocal star token name?) :
      isInert token = true := by
    cases spells <;> rfl
  have bar : isInert (.delim '|') = true := rfl
  have any : isInert (.delim '*') = true := rfl
  have lead (name : String) : isInert (.ident name) = true := rfl
  cases spells with
  | declared _ last => simp [part last, bar, lead]
  | anyNamespace last => simp [part last, bar, any]
  | noNamespace last => simp [part last, bar]
  | bare last => simp [part last]

theorem Grammar.SpellsOperator.inert {operator : AttributeOperator}
    (spells : SpellsOperator tokens operator) : ∀ t ∈ tokens, isInert t = true := by
  cases spells with
  | equals => exact List.forall_mem_singleton.2 rfl
  | includes | dashMatch | startsWith | endsWith | contains =>
    exact List.forall_mem_cons.2 ⟨rfl, List.forall_mem_singleton.2 rfl⟩

theorem Grammar.SpellsComparison.exists_inert {operator? : Option AttributeOperator}
    {value : String} (spells : SpellsComparison tokens operator? value) :
    ∃ inner, tokens = inner ++ [.rightBracket] ∧ ∀ t ∈ inner, isInert t = true := by
  cases spells with
  | missing => exact ⟨[], rfl, List.forall_mem_nil _⟩
  | @compared sign front back token operator _ operatorSpells frontBlanks operand backBlanks =>
    have inert : isInert token = true := by
      cases operand <;> rfl
    refine ⟨sign ++ (front ++ token :: back), by simp, ?_⟩
    exact List.forall_mem_append.2 ⟨operatorSpells.inert, List.forall_mem_append.2
      ⟨frontBlanks.inert, List.forall_mem_cons.2 ⟨inert, backBlanks.inert⟩⟩⟩

/-- An attribute selector is a pair of brackets around inert tokens. -/
theorem Grammar.SpellsAttribute.exists_inert {selector : AttributeSelector}
    (spells : SpellsAttribute table tokens selector) :
    ∃ inner, tokens = .leftBracket :: (inner ++ [.rightBracket]) ∧
      ∀ t ∈ inner, isInert t = true := by
  cases spells with
  | @mk front back name _ _ _ _ _ frontBlanks nameSpells backBlanks comparison =>
    obtain ⟨inner, rfl, inert⟩ := comparison.exists_inert
    refine ⟨front ++ (name ++ (back ++ inner)), by simp, ?_⟩
    exact List.forall_mem_append.2 ⟨frontBlanks.inert, List.forall_mem_append.2
      ⟨nameSpells.inert, List.forall_mem_append.2 ⟨backBlanks.inert, inert⟩⟩⟩

theorem Grammar.SpellsAttribute.level {selector : AttributeSelector}
    (spells : SpellsAttribute table tokens selector) : Level tokens := by
  obtain ⟨inner, rfl, inert⟩ := spells.exists_inert
  exact .flat rfl (.append (.of_inert inert) (.flat rfl .nil))

theorem Grammar.SpellsType.level {types : Compound} (spells : SpellsType table tokens types) :
    Level tokens := by
  rcases spells.eq_nil_or_name with ⟨rfl, -⟩ | ⟨name, named, -⟩
  · exact .nil
  · exact .of_inert named.inert

mutual

theorem Grammar.SpellsSimple.level : ∀ {tokens : List Token} {simple : Simple},
    SpellsSimple table tokens simple → Level tokens
  | _, _, .id _ => .flat rfl .nil
  | _, _, .className _ => .flat rfl (.flat rfl .nil)
  | _, _, .hasAttribute selector => selector.level
  | _, _, .pseudoClass _ => .flat rfl (.flat rfl .nil)
  | _, _, .functional _ balanced => .call balanced
  | _, _, .negation _ front inner _ back => by
    have level := (Level.of_inert front.inert).append (inner.level.append (.of_inert back.inert))
    simpa using Level.call level.balanced

theorem Grammar.SpellsMembers.level : ∀ {tokens : List Token} {members : Compound},
    SpellsMembers table tokens members → Level tokens
  | _, _, .nil => .nil
  | _, _, .cons first rest => first.level.append rest.level

theorem Grammar.SpellsPlain.level : ∀ {tokens : List Token} {compound : Compound},
    SpellsPlain table tokens compound → Level tokens
  | _, _, .mk types members => types.level.append members.level

end

theorem Grammar.SpellsCompound.level {compound : Compound} {pseudoElement? : Option String}
    (spells : SpellsCompound table tokens compound pseudoElement?) : Level tokens := by
  cases spells with
  | mk plain ending _ =>
    refine plain.level.append ?_
    cases ending with
    | missing => exact .nil
    | doubled _ => exact .flat rfl (.flat rfl (.flat rfl .nil))
    | single _ => exact .flat rfl (.flat rfl .nil)

theorem Grammar.SpellsCombinator.inert {k : Combinator} (spells : SpellsCombinator tokens k) :
    ∀ t ∈ tokens, isInert t = true := by
  cases spells with
  | descendant blanks _ => exact blanks.inert
  | @symbol _ _ c _ symbol front back =>
    have inert : isInert (.delim c) = true := by
      cases symbol <;> rfl
    exact List.forall_mem_append.2 ⟨front.inert, List.forall_mem_cons.2 ⟨inert, back.inert⟩⟩

theorem Grammar.SpellsChain.level {chain : Chain} {pseudoElement? : Option String}
    (spells : SpellsChain table tokens chain pseudoElement?) : Level tokens := by
  induction spells with
  | single compound => exact compound.level
  | joined _ sign compound ih => exact ih.append (.append (.of_inert sign.inert) compound.level)

theorem Grammar.SpellsSelector.level {selector : Selector}
    (spells : SpellsSelector table tokens selector) : Level tokens := by
  cases spells with
  | mk front chain back =>
    exact .append (.of_inert front.inert) (chain.level.append (.of_inert back.inert))

end Level

/-- The pieces of a text spell its selectors, one each. -/
theorem Grammar.SpellsList.forall₂_pieces {table : Namespaces} {tokens : List Token}
    {selectors : List Selector} (spells : SpellsList table tokens selectors) :
    List.Forall₂ (SpellsSelector table) (pieces 0 tokens) selectors := by
  induction spells with
  | last selector =>
    rw [selector.level.pieces_append]
    have only : pieces 0 [.eof] = [[]] := rfl
    rw [only, List.modifyHead_cons, List.append_nil]
    exact .cons selector .nil
  | @cons _ rest _ _ selector _ ih =>
    have cut : pieces 0 (.comma :: rest) = [] :: pieces 0 rest := rfl
    rw [selector.level.pieces_append, cut, List.modifyHead_cons, List.append_nil]
    exact .cons selector ih

end Selectors
