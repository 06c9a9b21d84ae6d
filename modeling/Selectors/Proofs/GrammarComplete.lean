import Selectors.Proofs.GrammarSound

/-!
What is in the grammar is accepted. A reader takes exactly the tokens that spell a value, whatever
follows them, as long as what follows cannot belong to it as well (`NoType`, `NoMember`).
-/

namespace Selectors

namespace Reading

open Grammar

variable {table : Namespaces} {star : Bool} {first tokens rest : List Token}

/-! ## Names -/

theorem exists_part {token : Token} {name? : Option String}
    (spells : SpellsLocal star token name?) (rest : List Token) :
    ∃ le, afterSeparator star (.delim '|' :: token :: rest) = some ⟨token, rest, le⟩ := by
  cases spells with
  | name name => exact ⟨_, rfl⟩
  | star => exact ⟨_, rfl⟩

theorem localName?_eq {token : Token} {name? : Option String}
    (spells : SpellsLocal star token name?) : localName? token = name? := by
  cases spells <;> rfl

/-- A name is read whole if no separator with another part follows it. -/
theorem qualifiedName_complete {name : QualifiedName} (spells : SpellsName table star first name)
    (apart : afterSeparator star rest = none) :
    ∃ le, qualifiedName table star (first ++ rest) = .ok (some ⟨name, rest, le⟩) := by
  refine ⟨by simp, ?_⟩
  cases spells with
  | declared declared part =>
    rcases exists_part part rest with ⟨le, separated⟩
    rw [declared_iff] at declared
    simp only [List.cons_append, List.nil_append, qualifiedName, separated, declared]
    rw [← localName?_eq part]
    rfl
  | anyNamespace part =>
    rcases exists_part part rest with ⟨le, separated⟩
    simp only [List.cons_append, List.nil_append, qualifiedName, separated]
    rw [← localName?_eq part]
    rfl
  | @noNamespace token name? part =>
    rcases exists_part part rest with ⟨le, separated⟩
    have shape : qualifiedName table star (.delim '|' :: token :: rest) =
        .ok ((afterSeparator star (.delim '|' :: token :: rest)).map fun part =>
          part.map fun token => ⟨some "", localName? token⟩) := rfl
    refine shape.trans ?_
    rw [separated, ← localName?_eq part]
    rfl
  | bare part =>
    cases part with
    | name name => simp only [List.cons_append, List.nil_append, qualifiedName, apart]
    | star => simp only [List.cons_append, List.nil_append, qualifiedName, apart, if_true]

theorem afterSeparator_eq_none (noBar : ∀ t ∈ tokens.head?, t ≠ .delim '|') :
    afterSeparator star tokens = none := by
  unfold afterSeparator
  split
  · exact absurd rfl (noBar _ rfl)
  · rfl

theorem qualifiedName_eq_none (noType : NoType tokens) :
    qualifiedName table true tokens = .ok none := by
  unfold qualifiedName
  split
  · cases noType _ rfl
  · cases noType _ rfl
  · rw [afterSeparator_eq_none]
    · rfl
    · intro token here same
      rw [same] at here
      cases noType _ here

theorem typeSelector_complete {types : Compound} (spells : SpellsType table first types)
    (noType : NoType rest) : Yields (typeSelector table (first ++ rest)) types rest := by
  unfold typeSelector
  rcases spells.eq_nil_or_name with ⟨rfl, rfl⟩ | ⟨name, named, rfl⟩
  · rw [List.nil_append, qualifiedName_eq_none noType]
    exact ⟨_, rfl⟩
  · have apart : afterSeparator true rest = none := by
      refine afterSeparator_eq_none fun token here same => ?_
      rw [same] at here
      cases noType _ here
    rcases qualifiedName_complete named apart with ⟨le, read⟩
    rw [read]
    exact ⟨_, rfl⟩

/-! ## Attributes -/

theorem operator_complete {o : AttributeOperator} (spells : SpellsOperator first o) :
    Yields (operator (first ++ rest)) o rest := by
  cases spells with
  | equals | includes | dashMatch | startsWith | endsWith | contains => exact ⟨_, rfl⟩

theorem operand_complete {token : Token} {value : String} (spells : SpellsOperand token value) :
    Yields (operand (token :: rest)) value rest := by
  cases spells with
  | name value => exact ⟨_, rfl⟩
  | string value => exact ⟨_, rfl⟩

theorem comparison_complete {o : AttributeOperator} {value : String}
    (spells : SpellsComparison first (some o) value) :
    Yields (comparison (first ++ rest)) (o, value) rest := by
  cases spells with
  | @compared sign front back token _ _ signSpells frontBlanks valueSpells backBlanks =>
    have solid : ∀ t ∈ (token :: (back ++ .rightBracket :: rest)).head?, t ≠ .blank := by
      intro t here
      cases here
      cases valueSpells <;> nofun
    have shape : sign ++ (front ++ token :: (back ++ [.rightBracket])) ++ rest =
        sign ++ (front ++ (token :: (back ++ .rightBracket :: rest))) := by simp
    rw [shape]
    refine yields_comparison_iff.2 ⟨_, _, operator_complete signSpells, ?_,
      skipBlanks_append backBlanks nofun⟩
    rw [skipBlanks_append frontBlanks solid]
    exact operand_complete valueSpells

theorem solid_of_spellsComparison {operator? : Option AttributeOperator} {value : String}
    (spells : SpellsComparison first operator? value) (rest : List Token) :
    ∀ t ∈ (first ++ rest).head?, t ≠ .blank := by
  intro t here
  cases spells with
  | missing =>
    cases here
    nofun
  | compared sign _ _ _ =>
    cases sign <;> cases here <;> nofun

theorem apart_of_spellsComparison {operator? : Option AttributeOperator} {value : String}
    (spells : SpellsComparison first operator? value) {back : List Token} (blanks : Blanks back)
    (rest : List Token) : afterSeparator false (back ++ (first ++ rest)) = none := by
  cases back with
  | cons token back =>
    refine afterSeparator_eq_none fun t here => ?_
    rw [List.cons_append, List.head?_cons, Option.mem_some_iff] at here
    rw [← here, blanks token (List.mem_cons_self ..)]
    nofun
  | nil =>
    cases spells with
    | missing => rfl
    | compared sign _ _ _ =>
      -- The bar of an operator is no separator: an equals sign follows it.
      cases sign <;> rfl

theorem attributeSelector_complete {selector : AttributeSelector}
    (spells : SpellsAttribute table (.leftBracket :: first) selector) (rest : List Token) :
    Yields (attributeSelector table (first ++ rest)) selector rest := by
  cases spells with
  | @mk front back name comparison _ _ operator? _ frontBlanks nameSpells backBlanks lastSpells =>
    have shape : front ++ (name ++ (back ++ comparison)) ++ rest =
        front ++ (name ++ (back ++ (comparison ++ rest))) := by simp
    have solid : ∀ t ∈ (name ++ (back ++ (comparison ++ rest))).head?, t ≠ .blank := by
      rcases nameSpells.starts with ⟨token, more, rfl, starts⟩
      intro t here same
      cases here
      rw [same] at starts
      cases starts
    have named := qualifiedName_complete nameSpells
      (apart_of_spellsComparison lastSpells backBlanks rest)
    have lastSolid := solid_of_spellsComparison lastSpells rest
    rw [← skipBlanks_append frontBlanks solid, ← shape] at named
    rcases named with ⟨_, named⟩
    apply yields_attributeSelector_iff.2
    cases operator? with
    | none =>
      cases lastSpells
      exact .present named (skipBlanks_append backBlanks lastSolid)
    | some operator =>
      refine .compared named ?_
      rw [skipBlanks_append backBlanks lastSolid]
      exact comparison_complete lastSpells

/-! ## Arguments -/

/-- Balanced tokens are arguments at any depth. -/
theorem arguments_complete {args more : List Token} (balanced : Balanced args) {depth : Nat}
    {tokens : List Token} (read : Yields (arguments depth tokens) more rest) :
    Yields (arguments depth (args ++ tokens)) (args ++ more) rest := by
  induction balanced generalizing depth tokens more with
  | nil => exact read
  | @plain token args noOpening noClosing noEnd _ ih =>
    have later := (ih read).keep token
    cases token with
    | leftParen => cases noOpening
    | function name => cases noOpening
    | rightParen => exact absurd rfl noClosing
    | eof => exact absurd rfl noEnd
    | _ => exact later
  | @group opening inner args isOpening _ _ ihInner ihRest =>
    have behind : Yields (arguments (depth + 1) (.rightParen :: (args ++ tokens)))
        (.rightParen :: (args ++ more)) rest := (ihRest read).keep .rightParen
    have later := (ihInner behind).keep opening
    have shape (end' : List Token) : opening :: (inner ++ .rightParen :: args) ++ end' =
        opening :: (inner ++ .rightParen :: (args ++ end')) := by simp
    rw [shape, shape]
    cases opening with
    | leftParen => exact later
    | function name => exact later
    | _ => cases isOpening

/-! ## Compounds -/

theorem length_ne_append (full : first ≠ []) (rest : List Token) :
    rest.length ≠ (first ++ rest).length := by
  have long := List.length_pos_of_ne_nil full
  rw [List.length_append]
  omega

theorem step_eq_stop (noMember : NoMember tokens) : step table tokens = .ok .stop := by
  unfold step
  split
  all_goals first | rfl | cases noMember _ rfl

/-- Nothing is read where no member starts. -/
theorem members_stop (noMember : NoMember tokens) :
    Yields (members table tokens) ⟨[], none⟩ tokens :=
  yields_members_iff.2 (.stop (step_eq_stop noMember))

theorem members_member {simple : Simple} {more : List Token} {part : Part}
    (stepped : ∃ lt, step table tokens = .ok (.member simple more lt))
    (later : Yields (members table more) part rest) :
    Yields (members table tokens) (part.cons simple) rest := by
  rcases stepped with ⟨_, stepped⟩
  exact yields_members_iff.2 (.member stepped later)

theorem step_attribute {selector : AttributeSelector} {more : List Token}
    (read : Yields (attributeSelector table tokens) selector more) :
    ∃ lt, step table (.leftBracket :: tokens) = .ok (.member (.hasAttribute selector) more lt) := by
  rcases read with ⟨le, read⟩
  refine ⟨Nat.lt_succ_of_le le, ?_⟩
  unfold step
  dsimp only
  rw [read]

theorem step_functional {name : String} {args more : List Token} (isOther : name.toLower ≠ "not")
    (read : Yields (arguments 0 tokens) args more) :
    ∃ lt, step table (.colon :: .function name :: tokens) =
      .ok (.member (.functional name.toLower args) more lt) := by
  rcases read with ⟨le, read⟩
  refine ⟨by simp only [List.length_cons]; omega, ?_⟩
  unfold step
  dsimp only
  rw [if_neg isOther, read]

theorem step_pseudoClass {name : String} (unknown : name.toLower ∉ singleColonNames) :
    ∃ lt, step table (.colon :: .ident name :: tokens) =
      .ok (.member (.pseudoClass name.toLower) tokens lt) :=
  ⟨by simp only [List.length_cons]; omega,
    if_neg fun known => unknown (mem_singleColonNames_iff.2 known)⟩

theorem step_negation {name : String} (isNot : name.toLower = "not") :
    ∃ lt, step table (.colon :: .function name :: tokens) = .ok (.negation tokens lt) :=
  ⟨by simp only [List.length_cons]; omega, if_pos isNot⟩

mutual

theorem members_of_simple : ∀ {first more rest : List Token} {simple : Simple} {part : Part},
    SpellsSimple table first simple → Yields (members table more) part rest →
    Yields (members table (first ++ more)) (part.cons simple) rest
  | _, _, _, _, _, .id value, later => members_member ⟨_, rfl⟩ later
  | _, _, _, _, _, .className name, later => members_member ⟨_, rfl⟩ later
  | _, more, _, _, _, .hasAttribute spells, later => by
    refine members_member ?_ later
    cases spells with
    | mk front name back last =>
      have read := attributeSelector_complete (.mk front name back last) more
      exact step_attribute read
  | _, _, _, _, _, .pseudoClass unknown, later => members_member (step_pseudoClass unknown) later
  | _, more, _, _, _, .functional isOther balanced, later => by
    refine members_member (step_functional isOther ?_) later
    have closed : Yields (arguments 0 (.rightParen :: more)) [] more := ⟨_, rfl⟩
    have read := arguments_complete balanced closed
    rw [List.append_nil] at read
    show Yields (arguments 0 (_ ++ [.rightParen] ++ more)) _ more
    rwa [List.append_assoc]
  | _, more, _, _, _, @SpellsSimple.negation _ name front tokens back _ isNot frontBlanks inner full
      backBlanks, later => by
    rcases inner.starts full with ⟨token, others, shape, starts⟩
    have solid : ∀ t ∈ (tokens ++ (back ++ .rightParen :: more)).head?, t ≠ .blank := by
      rw [shape]
      exact solid_of_starts starts _
    have follows : Follows (back ++ .rightParen :: more) := (follows_cons rfl).blanks backBlanks
    obtain ⟨types, own, mid, typed, ownRead, rfl⟩ :=
      exists_types_of_plain inner follows.1 (members_stop follows.2)
    have opened : front ++ (tokens ++ (back ++ [.rightParen])) ++ more =
        front ++ (tokens ++ (back ++ .rightParen :: more)) := by simp
    rw [List.cons_append, List.cons_append, opened]
    rcases step_negation isNot with ⟨_, stepped⟩
    have skipped := skipBlanks_append frontBlanks solid
    have notEmpty := length_ne_append full (back ++ .rightParen :: more)
    rw [← skipped] at typed notEmpty
    exact yields_members_iff.2 (.negation stepped typed ownRead notEmpty
      (skipBlanks_append backBlanks nofun) later)

theorem members_of_members : ∀ {first more rest : List Token} {compound : Compound} {part : Part},
    SpellsMembers table first compound → Yields (members table more) part rest →
    Yields (members table (first ++ more)) ⟨compound ++ part.compound, part.pseudoElement?⟩ rest
  | _, _, _, _, _, .nil, later => later
  | _, _, _, _, _, .cons simple members, later => by
    rw [List.append_assoc]
    exact members_of_simple simple (members_of_members members later)

theorem exists_types_of_plain : ∀ {first more rest : List Token} {compound : Compound}
    {pseudoElement? : Option String},
    SpellsPlain table first compound → NoType more →
    Yields (members table more) ⟨[], pseudoElement?⟩ rest →
    ∃ types own mid, Yields (typeSelector table (first ++ more)) types mid ∧
      Yields (members table mid) ⟨own, pseudoElement?⟩ rest ∧ compound = types ++ own
  | _, _, _, _, _, .mk types members, noType, later => by
    have typed := typeSelector_complete types (members.noType noType)
    have own := members_of_members members later
    rw [List.append_nil] at own
    rw [List.append_assoc]
    exact ⟨_, _, _, typed, own, rfl⟩

end

theorem members_of_ending {pseudoElement? : Option String}
    (spells : SpellsEnding first pseudoElement?) (noMember : NoMember rest) :
    Yields (members table (first ++ rest)) ⟨[], pseudoElement?⟩ rest := by
  cases spells with
  | missing => exact members_stop noMember
  | @doubled name =>
    have stepped : step table (.colon :: .colon :: .ident name :: rest) =
        .ok (.pseudoElement name.toLower rest (Nat.le_add_right _ 3)) := rfl
    exact yields_members_iff.2 (.ending stepped)
  | @single name known =>
    have stepped : step table (.colon :: .ident name :: rest) =
        .ok (.pseudoElement name.toLower rest (Nat.le_add_right _ 2)) :=
      if_pos (mem_singleColonNames_iff.1 known)
    exact yields_members_iff.2 (.ending stepped)

theorem compound_complete {c : Compound} {pseudoElement? : Option String}
    (spells : SpellsCompound table first c pseudoElement?) (follows : Follows rest) :
    Yields (compound table (first ++ rest)) ⟨c, pseudoElement?⟩ rest := by
  cases spells with
  | mk plain ending _ =>
    rw [List.append_assoc]
    apply yields_compound_iff.2
    exact exists_types_of_plain plain (ending.noType follows.1)
      (members_of_ending ending follows.2)

/-! ## Combinators -/

/-- A combinator that is written with a symbol. -/
theorem combinator?_symbol {c : Char} {k : Combinator} {more : List Token}
    (spells : SpellsSymbol c k) (shape : skipBlanks tokens = .delim c :: more) :
    ∃ le, combinator? tokens = some ⟨k, skipBlanks more, le⟩ := by
  have le : (skipBlanks more).length ≤ tokens.length := by
    have whole := length_skipBlanks_le tokens
    have later := length_skipBlanks_le more
    rw [shape, List.length_cons] at whole
    omega
  refine ⟨le, ?_⟩
  unfold combinator?
  dsimp only
  split
  case h_7 noChild noNext noSubsequent _ _ _ =>
    cases spells with
    | child => exact absurd shape (noChild more)
    | nextSibling => exact absurd shape (noNext more)
    | subsequentSibling => exact absurd shape (noSubsequent more)
  all_goals
    rename_i found
    cases spells <;> cases shape.symm.trans found <;> rfl

/-- Blanks alone are a combinator in front of a compound. -/
theorem combinator?_descendant {token : Token} {more : List Token}
    (starts : (startsType token || startsMember token) = true)
    (shape : skipBlanks tokens = token :: more) (skipped : (token :: more).length ≠ tokens.length) :
    ∃ le, combinator? tokens = some ⟨.descendant, token :: more, le⟩ := by
  refine ⟨shape ▸ length_skipBlanks_le tokens, ?_⟩
  unfold combinator?
  dsimp only
  split
  case h_7 =>
    rw [if_neg (shape ▸ skipped)]
    simp only [shape]
  all_goals
    rename_i found
    cases shape.symm.trans found <;> cases starts

theorem combinator?_complete {sign : List Token} {k : Combinator} {token : Token}
    (spells : SpellsCombinator sign k) (starts : (startsType token || startsMember token) = true) :
    ∃ le, combinator? (sign ++ token :: rest) = some ⟨k, token :: rest, le⟩ := by
  have solid := solid_of_starts starts rest
  cases spells with
  | descendant blanks full =>
    refine combinator?_descendant starts (skipBlanks_append blanks solid) ?_
    have long := List.length_pos_of_ne_nil full
    simp only [List.length_append]
    omega
  | @symbol front back c _ symbol frontBlanks backBlanks =>
    have shape : front ++ .delim c :: back ++ token :: rest =
        front ++ .delim c :: (back ++ token :: rest) := by simp
    have found : skipBlanks (front ++ .delim c :: (back ++ token :: rest)) =
        .delim c :: (back ++ token :: rest) := skipBlanks_append frontBlanks nofun
    have combined := combinator?_symbol symbol found
    rwa [skipBlanks_append backBlanks solid, ← shape] at combined

theorem combinator?_eq_none {stop : Token} {more : List Token}
    (isStop : stop = .comma ∨ stop = .eof) (shape : skipBlanks tokens = stop :: more) :
    combinator? tokens = none := by
  unfold combinator?
  dsimp only
  split
  case h_7 noComma noEnd _ =>
    rcases isStop with rfl | rfl
    · exact absurd shape (noComma more)
    · exact absurd shape (noEnd more)
  all_goals
    rename_i found
    first
      | rfl
      | rcases isStop with rfl | rfl <;> cases shape.symm.trans found

/-- A combinator and the compound after it are read one after the other. -/
theorem link_complete {sign : List Token} {k : Combinator} {c : Compound}
    {pseudoElement? : Option String} (spellsSign : SpellsCombinator sign k)
    (spells : SpellsCompound table tokens c pseudoElement?) (follows : Follows rest) :
    (∃ le, combinator? (sign ++ (tokens ++ rest)) = some ⟨k, tokens ++ rest, le⟩) ∧
      Yields (compound table (tokens ++ rest)) ⟨c, pseudoElement?⟩ rest ∧
      rest.length ≠ (tokens ++ rest).length := by
  refine ⟨?_, compound_complete spells follows, length_ne_append spells.ne_nil rest⟩
  rcases spells.starts with ⟨token, more, rfl, starts⟩
  exact combinator?_complete spellsSign starts

/-! ## Chains -/

variable {left chain : Chain} {pseudoElement? : Option String}

/-- A reader that took the compounds of a chain goes on behind them. -/
theorem selector_of_chain {front : List Token} (blanks : Blanks front) :
    ∀ {tokens : List Token} {left : Chain}, SpellsChain table tokens left none →
    ∀ {more : List Token}, Follows more →
    Yields (chainFrom table left more) (chain, pseudoElement?) rest →
    Yields (selector table (front ++ (tokens ++ more))) (.ofChain chain pseudoElement?) rest
  | _, _, .single spells, more, follows, later => by
    have part := compound_complete spells follows
    have full := length_ne_append spells.ne_nil more
    rw [← skipBlanks_append blanks (spells.solid more)] at part full
    exact yields_selector_iff.2 (.chain part full later)
  | _, _, .joined spellsLeft sign spells, more, follows, later => by
    rcases link_complete sign spells follows with ⟨⟨_, combined⟩, part, full⟩
    have joined := yields_chainFrom_iff.2 (.joined combined part full later)
    rw [List.append_assoc, List.append_assoc]
    exact selector_of_chain blanks spellsLeft sign.follows joined

theorem selector_complete {s : Selector} {stop : Token} {more : List Token}
    (spells : SpellsSelector table first s) (isStop : stop = .comma ∨ stop = .eof) :
    Yields (selector table (first ++ stop :: more)) s (stop :: more) := by
  cases spells with
  | @mk front tokens back chain pseudoElement? frontBlanks spells backBlanks =>
    have follows : Follows (back ++ stop :: more) := by
      refine (follows_cons ?_).blanks backBlanks
      rcases isStop with rfl | rfl <;> rfl
    have skipped : skipBlanks (back ++ stop :: more) = stop :: more := by
      refine skipBlanks_append backBlanks fun t here => ?_
      cases here
      rcases isStop with rfl | rfl <;> nofun
    have shape : front ++ (tokens ++ back) ++ stop :: more =
        front ++ (tokens ++ (back ++ stop :: more)) := by simp
    rw [shape, ← Selector.ofChain_eq]
    cases pseudoElement? with
    | none =>
      have ended : Yields (chainFrom table chain (back ++ stop :: more)) (chain, none) _ :=
        yields_chainFrom_iff.2 (.ended (combinator?_eq_none isStop skipped))
      rw [skipped] at ended
      exact selector_of_chain frontBlanks spells follows ended
    | some name =>
      cases spells with
      | single spells =>
        have part := compound_complete spells follows
        have full := length_ne_append spells.ne_nil (back ++ stop :: more)
        rw [← skipBlanks_append frontBlanks (spells.solid _)] at part full
        have alone := yields_selector_iff.2 (.alone part full)
        rwa [skipped] at alone
      | @joined _ _ _ left _ _ _ spellsLeft sign spells =>
        rcases link_complete sign spells follows with ⟨⟨_, combined⟩, part, full⟩
        have last : Yields (chainFrom table left _) _ _ :=
          yields_chainFrom_iff.2 (.last combined part full)
        rw [skipped] at last
        rw [List.append_assoc, List.append_assoc]
        exact selector_of_chain frontBlanks spellsLeft sign.follows last

/-! ## Lists -/

theorem selectorList_complete {selectors : List Selector}
    (spells : SpellsList table tokens selectors) : selectorList table tokens = .ok selectors := by
  induction spells with
  | @last first s spells =>
    have read : Yields (selector table (first ++ [.eof])) s [.eof] :=
      selector_complete spells (Or.inr rfl)
    rcases read with ⟨_, read⟩
    unfold selectorList
    rw [read]
  | cons spells _ ih =>
    rcases selector_complete spells (Or.inl rfl) with ⟨_, read⟩
    unfold selectorList
    rw [read]
    dsimp only
    rw [ih]
    rfl

end Reading

end Selectors
