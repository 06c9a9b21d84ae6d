import Selectors.Proofs.Basic
import Selectors.Proofs.Grammar
import Selectors.Proofs.Readers

/-!
What the readers accept is in the grammar. Each reader takes some tokens off the front, and these
spell the value that it gives. The tokens a reader leaves are not looked at here; that it stops no
earlier than the grammar asks is the other direction.
-/

namespace Selectors

namespace Reading

open Grammar

variable {table : Namespaces} {star : Bool} {tokens rest : List Token}

/-! ## Names -/

theorem isLocalPart_iff {token : Token} :
    isLocalPart star token = true ↔ SpellsLocal star token (localName? token) := by
  constructor
  · intro h
    unfold isLocalPart at h
    split at h
    · exact .name _
    · rw [h]
      exact .star
    · cases h
  · intro h
    cases token with
    | ident name => rfl
    | delim c =>
      cases h
      rfl
    | _ => cases h

theorem afterSeparator_sound {part : Parsed Token tokens}
    (read : afterSeparator star tokens = some part) :
    tokens = .delim '|' :: part.value :: part.rest ∧
      SpellsLocal star part.value (localName? part.value) := by
  unfold afterSeparator at read
  split at read
  · split at read
    · rename_i isPart
      cases read
      exact ⟨rfl, isLocalPart_iff.1 isPart⟩
    · cases read
  · cases read

theorem qualifiedName_sound {name : QualifiedName} {le : rest.length ≤ tokens.length}
    (read : qualifiedName table star tokens = .ok (some ⟨name, rest, le⟩)) :
    ∃ first, tokens = first ++ rest ∧ SpellsName table star first name := by
  unfold qualifiedName at read
  split at read
  · rename_i lead more
    split at read
    · rename_i part separated
      rcases afterSeparator_sound separated with ⟨shape, spells⟩
      split at read
      · rename_i url declared
        cases read
        refine ⟨[.ident lead, .delim '|', part.value], ?_,
          .declared (declared_iff.2 declared) spells⟩
        exact congrArg (List.cons _) shape
      · cases read
    · cases read
      exact ⟨[.ident lead], rfl, .bare (.name lead)⟩
  · rename_i more
    split at read
    · rename_i part separated
      rcases afterSeparator_sound separated with ⟨shape, spells⟩
      cases read
      refine ⟨[.delim '*', .delim '|', part.value], ?_, .anyNamespace spells⟩
      exact congrArg (List.cons _) shape
    · split at read
      · rename_i isStar
        cases read
        subst isStar
        exact ⟨[.delim '*'], rfl, .bare .star⟩
      · cases read
  · rw [Except.ok.injEq, Option.map_eq_some_iff] at read
    rcases read with ⟨part, separated, same⟩
    cases same
    rcases afterSeparator_sound separated with ⟨shape, spells⟩
    exact ⟨[.delim '|', part.value], shape, .noNamespace spells⟩

theorem typeSelector_sound {types : Compound}
    (read : Yields (typeSelector table tokens) types rest) :
    ∃ first, tokens = first ++ rest ∧ SpellsType table first types := by
  unfold typeSelector at read
  split at read
  · exact absurd read not_yields_error
  · rcases yields_ok_iff.1 read with ⟨rfl, rfl⟩
    exact ⟨[], rfl, .missing⟩
  · rename_i name named
    rcases yields_ok_iff.1 read with ⟨rfl, rfl⟩
    rcases qualifiedName_sound named with ⟨first, split, spells⟩
    exact ⟨first, split, .of_name spells⟩

/-! ## Attributes -/

theorem operator_sound {o : AttributeOperator} (read : Yields (operator tokens) o rest) :
    ∃ first, tokens = first ++ rest ∧ SpellsOperator first o := by
  unfold operator at read
  split at read
  · rcases yields_ok_iff.1 read with ⟨rfl, rfl⟩
    exact ⟨_, rfl, .equals⟩
  · rename_i lead _ _
    split at read
    · rename_i o known
      rcases yields_ok_iff.1 read with ⟨rfl, rfl⟩
      exact ⟨[.delim lead, .delim '='], rfl, spellsOperator_of_lead known⟩
    · exact absurd read not_yields_error
  · exact absurd read not_yields_error

theorem operand_sound {value : String} (read : Yields (operand tokens) value rest) :
    ∃ token, tokens = token :: rest ∧ SpellsOperand token value := by
  unfold operand at read
  split at read
  · rcases yields_ok_iff.1 read with ⟨rfl, rfl⟩
    exact ⟨_, rfl, .name _⟩
  · rcases yields_ok_iff.1 read with ⟨rfl, rfl⟩
    exact ⟨_, rfl, .string _⟩
  · exact absurd read not_yields_error

theorem comparison_sound {o : AttributeOperator} {value : String}
    (read : Yields (comparison tokens) (o, value) rest) :
    ∃ first, tokens = first ++ rest ∧ SpellsComparison first (some o) value := by
  rcases yields_comparison_iff.1 read with ⟨afterSign, afterValue, signRead, valueRead, closed⟩
  rcases operator_sound signRead with ⟨first, splitSign, spellsSign⟩
  rcases operand_sound valueRead with ⟨token, splitValue, spellsValue⟩
  rcases exists_blanks afterSign with ⟨front, frontBlanks, splitFront⟩
  rcases exists_blanks afterValue with ⟨back, backBlanks, splitBack⟩
  refine ⟨_, ?_, .compared spellsSign frontBlanks spellsValue backBlanks⟩
  rw [splitSign, splitFront, splitValue, splitBack, closed]
  simp

theorem attributeSelector_sound {selector : AttributeSelector}
    (read : Yields (attributeSelector table tokens) selector rest) :
    ∃ first, tokens = first ++ rest ∧
      SpellsAttribute table (.leftBracket :: first) selector := by
  rcases exists_blanks tokens with ⟨front, frontBlanks, splitFront⟩
  cases yields_attributeSelector_iff.1 read with
  | @present _ _ afterName _ _ named closed =>
    rcases qualifiedName_sound named with ⟨first, splitName, spellsName⟩
    rcases exists_blanks afterName with ⟨back, backBlanks, splitBack⟩
    refine ⟨_, ?_, .mk frontBlanks spellsName backBlanks .missing⟩
    rw [splitFront, splitName, splitBack, closed]
    simp
  | @compared _ _ afterName _ _ _ _ named compared =>
    rcases qualifiedName_sound named with ⟨first, splitName, spellsName⟩
    rcases exists_blanks afterName with ⟨back, backBlanks, splitBack⟩
    rcases comparison_sound compared with ⟨last, splitLast, spellsLast⟩
    refine ⟨_, ?_, .mk frontBlanks spellsName backBlanks spellsLast⟩
    rw [splitFront, splitName, splitBack, splitLast]
    simp

/-! ## Arguments -/

/-- Tokens that close as many parentheses opened before them as `depth` says, and all of their
own. -/
inductive Closes : Nat → List Token → Prop
  | zero {tokens : List Token} : Balanced tokens → Closes 0 tokens
  | succ {depth : Nat} {tokens rest : List Token} : Balanced tokens → Closes depth rest →
    Closes (depth + 1) (tokens ++ .rightParen :: rest)

theorem Closes.plain {depth : Nat} {token : Token} (closes : Closes depth tokens)
    (noOpening : opens token = false) (noClosing : token ≠ .rightParen) (noEnd : token ≠ .eof) :
    Closes depth (token :: tokens) := by
  cases closes with
  | zero balanced => exact .zero (.plain noOpening noClosing noEnd balanced)
  | succ balanced closes =>
    exact .succ (.plain noOpening noClosing noEnd balanced) closes

/-- An opening token takes one closing parenthesis for itself. -/
theorem Closes.opening {depth : Nat} {token : Token} (closes : Closes (depth + 1) tokens)
    (isOpening : opens token = true) : Closes depth (token :: tokens) := by
  cases closes with
  | succ inner closes =>
    cases closes with
    | zero balanced => exact .zero (.group isOpening inner balanced)
    | succ balanced closes =>
      have grouped := Closes.succ (.group isOpening inner balanced) closes
      rwa [List.cons_append, List.append_assoc, List.cons_append] at grouped

theorem arguments_sound {depth : Nat} {args : List Token}
    (read : Yields (arguments depth tokens) args rest) :
    tokens = args ++ .rightParen :: rest ∧ Closes depth args := by
  induction tokens generalizing depth args with
  | nil => exact absurd read not_yields_error
  | cons token tokens ih =>
    cases token with
    | eof => exact absurd read not_yields_error
    | rightParen =>
      cases depth with
      | zero =>
        rcases yields_ok_iff.1 read with ⟨rfl, rfl⟩
        exact ⟨rfl, .zero .nil⟩
      | succ depth =>
        rcases yields_keep_iff.1 read with ⟨more, inner, rfl⟩
        rcases ih inner with ⟨rfl, closes⟩
        exact ⟨rfl, .succ .nil closes⟩
    | leftParen =>
      rcases yields_keep_iff.1 read with ⟨more, inner, rfl⟩
      rcases ih inner with ⟨rfl, closes⟩
      exact ⟨rfl, closes.opening rfl⟩
    | function name =>
      rcases yields_keep_iff.1 read with ⟨more, inner, rfl⟩
      rcases ih inner with ⟨rfl, closes⟩
      exact ⟨rfl, closes.opening rfl⟩
    | _ =>
      rcases yields_keep_iff.1 read with ⟨more, inner, rfl⟩
      rcases ih inner with ⟨rfl, closes⟩
      exact ⟨rfl, closes.plain rfl nofun nofun⟩

/-! ## Compounds -/

/-- The tokens that a step took spell what it says. -/
def Step.Spelled (table : Namespaces) : Step tokens → Prop
  | .member simple rest _ => ∃ first, tokens = first ++ rest ∧ SpellsSimple table first simple
  | .negation rest _ => ∃ name, tokens = .colon :: .function name :: rest ∧ name.toLower = "not"
  | .pseudoElement name rest _ => ∃ first, tokens = first ++ rest ∧ SpellsEnding first (some name)
  | .stop => True

theorem step_sound {s : Step tokens} (read : step table tokens = .ok s) : s.Spelled table := by
  unfold step at read
  split at read
  · cases read
    exact ⟨_, rfl, .id _⟩
  · cases read
  · cases read
    exact ⟨[_, _], rfl, .className _⟩
  · cases read
  · split at read
    · cases read
    · rename_i selector selected
      cases read
      rcases attributeSelector_sound (selected ▸ selector.yields) with ⟨first, split, spells⟩
      exact ⟨_, congrArg (List.cons _) split, .hasAttribute spells⟩
  · cases read
    exact ⟨[_, _, _], rfl, .doubled _⟩
  · cases read
  · split at read
    · rename_i known
      cases read
      exact ⟨[_, _], rfl, .single (mem_singleColonNames_iff.2 known)⟩
    · rename_i unknown
      cases read
      exact ⟨[_, _], rfl, .pseudoClass fun member => unknown (mem_singleColonNames_iff.1 member)⟩
  · split at read
    · rename_i isNot
      cases read
      exact ⟨_, rfl, isNot⟩
    · split at read
      · cases read
      · rename_i name more isOther _ args argsRead
        cases read
        rcases arguments_sound (argsRead ▸ args.yields) with ⟨split, closes⟩
        cases closes with
        | zero balanced => exact ⟨_, by simpa using split, .functional isOther balanced⟩
  · cases read
  · cases read
    trivial

/-- A negation is spelled by what was read between its start and its parenthesis, if the members in
it spell what `first` says. -/
theorem negation_sound {opened mid afterInner more own ending : List Token} {types inner : Compound}
    {name : String} (isNot : name.toLower = "not")
    (typed : Yields (typeSelector table (skipBlanks opened)) types mid)
    (splitInner : mid = own ++ (ending ++ afterInner)) (spellsOwn : SpellsMembers table own inner)
    (spellsEnding : SpellsEnding ending none)
    (full : afterInner.length ≠ (skipBlanks opened).length)
    (closed : skipBlanks afterInner = .rightParen :: more) :
    ∃ first, .colon :: .function name :: opened = first ++ more ∧
      SpellsSimple table first (.negation (types ++ inner)) := by
  rcases exists_blanks opened with ⟨front, frontBlanks, splitFront⟩
  rcases exists_blanks afterInner with ⟨back, backBlanks, splitBack⟩
  rcases typeSelector_sound typed with ⟨first, splitTypes, spellsTypes⟩
  cases spellsEnding
  have notEmpty : first ++ own ≠ [] := by
    intro empty
    rcases List.append_eq_nil_iff.1 empty with ⟨rfl, rfl⟩
    rw [splitTypes, splitInner] at full
    exact full rfl
  refine ⟨_, ?_, .negation isNot frontBlanks (.mk spellsTypes spellsOwn) notEmpty backBlanks⟩
  rw [splitFront, splitTypes, splitInner, splitBack, closed]
  simp

/-- The members of a compound are spelled by the first tokens, and its ending by the next ones. -/
theorem members_sound {part : Part} (read : Yields (members table tokens) part rest) :
    ∃ first ending, tokens = first ++ (ending ++ rest) ∧
      SpellsMembers table first part.compound ∧ SpellsEnding ending part.pseudoElement? := by
  induction size : tokens.length using Nat.strongRecOn generalizing tokens part rest with
  | ind n ih =>
    cases yields_members_iff.1 read with
    | stop _ => exact ⟨[], [], rfl, .nil, .missing⟩
    | ending stepped =>
      rcases step_sound stepped with ⟨ending, split, spells⟩
      exact ⟨[], ending, split, .nil, spells⟩
    | @member _ more _ lt _ stepped later =>
      rcases step_sound stepped with ⟨first, split, spells⟩
      rcases ih more.length (size ▸ lt) later rfl with
        ⟨own, ending, splitLater, spellsOwn, spellsEnding⟩
      refine ⟨first ++ own, ending, ?_, .cons spells spellsOwn, spellsEnding⟩
      rw [split, splitLater, List.append_assoc]
    | @negation opened mid afterInner more _ lt _ _ _ stepped typed inner full closed later =>
      have skippedOpened := length_skipBlanks_le opened
      have skippedInner := length_skipBlanks_le afterInner
      have typedLe := typed.length_le
      have innerLe := inner.length_le
      rw [closed, List.length_cons] at skippedInner
      rcases step_sound stepped with ⟨name, shape, isNot⟩
      rcases ih mid.length (by omega) inner rfl with
        ⟨inside, insideEnding, splitInside, spellsInside, spellsInsideEnding⟩
      rcases negation_sound isNot typed splitInside spellsInside spellsInsideEnding full closed with
        ⟨first, splitFirst, spellsFirst⟩
      rcases ih more.length (by omega) later rfl with
        ⟨own, ending, splitLater, spellsOwn, spellsEnding⟩
      refine ⟨first ++ own, ending, ?_, .cons spellsFirst spellsOwn, spellsEnding⟩
      rw [shape, splitFirst, splitLater, List.append_assoc]

theorem compound_sound {c : Compound} {pseudoElement? : Option String}
    (read : Yields (compound table tokens) ⟨c, pseudoElement?⟩ rest)
    (full : rest.length ≠ tokens.length) :
    ∃ first, tokens = first ++ rest ∧ SpellsCompound table first c pseudoElement? := by
  rcases yields_compound_iff.1 read with ⟨types, own, mid, typed, ownRead, rfl⟩
  rcases typeSelector_sound typed with ⟨first, split, spells⟩
  rcases members_sound ownRead with ⟨later, ending, splitLater, spellsLater, spellsEnding⟩
  have whole : tokens = first ++ later ++ ending ++ rest := by
    rw [split, splitLater]
    simp
  have notEmpty : first ++ later ++ ending ≠ [] := by
    intro empty
    rw [whole, empty] at full
    exact full rfl
  exact ⟨_, whole, .mk (.mk spells spellsLater) spellsEnding notEmpty⟩

/-! ## Chains -/

theorem combinator?_sound {k : Combinator} {le : rest.length ≤ tokens.length}
    (read : combinator? tokens = some ⟨k, rest, le⟩) :
    ∃ sign, tokens = sign ++ rest ∧ SpellsCombinator sign k := by
  rcases exists_blanks tokens with ⟨front, frontBlanks, splitFront⟩
  have symbol {c : Char} {k : Combinator} {more : List Token} (spells : SpellsSymbol c k)
      (shape : skipBlanks tokens = .delim c :: more) :
      ∃ sign, tokens = sign ++ skipBlanks more ∧ SpellsCombinator sign k := by
    rcases exists_blanks more with ⟨back, backBlanks, splitBack⟩
    refine ⟨_, ?_, .symbol spells frontBlanks backBlanks⟩
    rw [splitFront, shape]
    simpa using splitBack
  unfold combinator? at read
  dsimp only at read
  split at read
  · rename_i shape
    cases read
    exact symbol .child shape
  · rename_i shape
    cases read
    exact symbol .nextSibling shape
  · rename_i shape
    cases read
    exact symbol .subsequentSibling shape
  · cases read
  · cases read
  · cases read
  · split at read
    · cases read
    · rename_i skipped
      cases read
      refine ⟨front, splitFront, .descendant frontBlanks fun empty => ?_⟩
      rw [empty, List.nil_append] at splitFront
      exact skipped (congrArg List.length splitFront.symm)

/-- A combinator and the compound behind it. -/
theorem link_sound {k : Combinator} {mid after : List Token} {le : mid.length ≤ tokens.length}
    {c : Compound} {pseudoElement? : Option String}
    (combined : combinator? tokens = some ⟨k, mid, le⟩)
    (part : Yields (compound table mid) ⟨c, pseudoElement?⟩ after)
    (full : after.length ≠ mid.length) :
    ∃ sign first, tokens = sign ++ (first ++ after) ∧ SpellsCombinator sign k ∧
      SpellsCompound table first c pseudoElement? := by
  rcases combinator?_sound combined with ⟨sign, splitSign, spellsSign⟩
  rcases compound_sound part full with ⟨first, splitFirst, spellsFirst⟩
  exact ⟨sign, first, by rw [splitSign, splitFirst], spellsSign, spellsFirst⟩

theorem chainFrom_sound {before : List Token} {left chain : Chain} {pseudoElement? : Option String}
    (spells : SpellsChain table before left none)
    (read : Yields (chainFrom table left tokens) (chain, pseudoElement?) rest) :
    ∃ first back, before ++ tokens = first ++ (back ++ rest) ∧
      SpellsChain table first chain pseudoElement? ∧ Blanks back := by
  induction size : tokens.length using Nat.strongRecOn generalizing tokens before left with
  | ind n ih =>
    cases yields_chainFrom_iff.1 read with
    | ended _ =>
      rcases exists_blanks tokens with ⟨back, backBlanks, splitBack⟩
      exact ⟨before, back, congrArg (before ++ ·) splitBack, spells, backBlanks⟩
    | @last _ _ after _ _ _ combined part full =>
      rcases link_sound combined part full with ⟨sign, first, split, spellsSign, spellsFirst⟩
      rcases exists_blanks after with ⟨back, backBlanks, splitBack⟩
      refine ⟨_, back, ?_, .joined spells spellsSign spellsFirst, backBlanks⟩
      rw [split, List.append_assoc, List.append_assoc, ← splitBack]
    | @joined _ mid after _ le _ _ combined part full later =>
      rcases link_sound combined part full with ⟨sign, first, split, spellsSign, spellsFirst⟩
      have shorter : after.length < n :=
        size ▸ Nat.lt_of_lt_of_le (Nat.lt_of_le_of_ne part.length_le full) le
      have spellsLeft := SpellsChain.joined spells spellsSign spellsFirst
      rcases ih after.length shorter spellsLeft later rfl with
        ⟨all, back, splitAll, spellsAll, backBlanks⟩
      refine ⟨all, back, ?_, spellsAll, backBlanks⟩
      rw [split, ← splitAll, List.append_assoc, List.append_assoc]

/-! ## Whole selectors -/

theorem selector_sound {s : Selector} (read : Yields (selector table tokens) s rest) :
    ∃ first, tokens = first ++ rest ∧ SpellsSelector table first s := by
  rcases exists_blanks tokens with ⟨front, frontBlanks, splitFront⟩
  cases yields_selector_iff.1 read with
  | @alone after _ _ part full =>
    rcases compound_sound part full with ⟨first, splitFirst, spellsFirst⟩
    rcases exists_blanks after with ⟨back, backBlanks, splitBack⟩
    refine ⟨_, ?_, .of_chain frontBlanks (.single spellsFirst) backBlanks⟩
    rw [List.append_assoc, List.append_assoc, ← splitBack, ← splitFirst, ← splitFront]
  | chain part full later =>
    rcases compound_sound part full with ⟨first, splitFirst, spellsFirst⟩
    rcases chainFrom_sound (.single spellsFirst) later with
      ⟨all, back, splitAll, spellsAll, backBlanks⟩
    refine ⟨_, ?_, .of_chain frontBlanks spellsAll backBlanks⟩
    rw [List.append_assoc, List.append_assoc, ← splitAll, ← splitFirst, ← splitFront]

theorem selectorList_sound {selectors : List Selector} (ended : Ended tokens)
    (read : selectorList table tokens = .ok selectors) : SpellsList table tokens selectors := by
  induction size : tokens.length using Nat.strongRecOn generalizing tokens selectors with
  | ind n ih =>
    unfold selectorList at read
    split at read
    · cases read
    · rename_i s selectorRead
      rcases selector_sound (selectorRead ▸ s.yields) with ⟨first, split, spells⟩
      have endedRest : Ended s.rest := (split ▸ ended).of_append spells.eof_notMem
      split at read
      · rename_i rest shape
        rcases map_eq_ok_iff.1 read with ⟨more, listRead, rfl⟩
        rw [shape] at split endedRest
        have notEnd : .eof ∉ [Token.comma] := by simp
        have endedMore : Ended rest := Ended.of_append endedRest notEnd
        have shorter : rest.length < n := by
          rw [← size, split]
          simp only [List.length_append, List.length_cons]
          omega
        have list := SpellsList.cons spells (ih rest.length shorter endedMore listRead rfl)
        rwa [← split] at list
      · rename_i rest shape
        cases read
        rw [shape] at split endedRest
        rw [endedRest.eq_nil] at split
        have list := SpellsList.last spells
        rwa [← split] at list
      · rename_i shape
        rw [shape] at endedRest
        exact absurd endedRest not_ended_nil
      · cases read

end Reading

end Selectors
