import Selectors.Compiled
import Selectors.Proofs.AnPlusB
import Selectors.Proofs.Composition
import Selectors.Proofs.Meaning
import Selectors.Proofs.SoundTokens

/-!
Reading and compiling stay within 64 bits. The offset of an `An+B` is negated where its digits are
written on to the `n`, and multiplied by its sign where the sign stands apart. Here both are worked
out as soon as the operands are there, also where the tokens turn out to spell nothing, and a result
that does not fit ends everything: `AnPlusB.parse64?` for one list of tokens, `compileList64?` for a
whole text. In the same way `Reading.argumentsCounted?` counts open parentheses in an integer and
gives up below zero.

None of them ever gives up (`reading_stays_within_bounds`). Numbers without a sign are not negative
in a text, so there is always room for a minus sign; and all arguments of a selector are tokens of
its text.
-/

namespace Selectors

/-! ## Counting in 64 bits -/

namespace AnPlusB

/-- The negative of an integer, if 64 bits hold it. -/
def negated? (b : Int64) : Option Int64 := int64? (-b.toInt)

/-- The product of a sign and an integer, if 64 bits hold it. -/
def product? (sign b : Int64) : Option Int64 := int64? (sign.toInt * b.toInt)

/-- `dashOffset?` in 64 bits. -/
def dashOffset64? : List Char → Option (Option Int64)
  | 'n' :: '-' :: digits =>
    if !digits.isEmpty && digits.all Char.isDigit then
      (int64? (digitsValue digits)).elim (some none) fun b => (negated? b).map some
    else some none
  | _ => some none

/-- `afterSign` in 64 bits. The product is needed before the end of the tokens is looked for. -/
def afterSign64? (step : Int64) (minus : Bool) : List Token → Option (Option AnPlusB)
  | .number n :: rest =>
    if n.signed then some none
    else n.integer?.elim (some none) fun b =>
      (product? (if minus then -1 else 1) b).map fun offset =>
        if rest.isEmpty then some ⟨step, offset⟩ else none
  | _ => some none

/-- `afterN` in 64 bits. -/
def afterN64? (step : Int64) : List Token → Option (Option AnPlusB)
  | .delim '+' :: rest => afterSign64? step false rest
  | .delim '-' :: rest => afterSign64? step true rest
  | rest => some (afterN step rest)

/-- `withStep` in 64 bits. The digits on the `n` are read before the end of the tokens is looked
for. -/
def withStep64? (step : Int64) (unit : List Char) (rest : List Token) : Option (Option AnPlusB) :=
  match unit with
  | ['n'] => afterN64? step rest
  | ['n', '-'] => afterSign64? step true rest
  | unit =>
    (dashOffset64? unit).map fun offset? =>
      if rest.isEmpty then offset?.map fun b => ⟨step, b⟩ else none

/-- `ofIdent` in 64 bits. -/
def ofIdent64? (name : List Char) (rest : List Token) : Option (Option AnPlusB) :=
  match name with
  | ['e', 'v', 'e', 'n'] => some (ofIdent name rest)
  | ['o', 'd', 'd'] => some (ofIdent name rest)
  | '-' :: unit => withStep64? (-1) unit rest
  | unit => withStep64? 1 unit rest

/-- `parse?` in 64 bits: nothing at all where a value on the way does not fit. -/
def parse64? (tokens : List Token) : Option (Option AnPlusB) :=
  match skipBlanks tokens with
  | .dimension n unit :: rest =>
    n.integer?.elim (some none) fun a => withStep64? a unit.toLower.toList (solid rest)
  | .ident name :: rest => ofIdent64? name.toLower.toList (solid rest)
  | .delim '+' :: .ident name :: rest => withStep64? 1 name.toLower.toList (solid rest)
  | _ => some (parse? tokens)

/-- The least integer is no number without a sign in any text. If it were, it would be too much. -/
example : parse64? [.ident "n", .delim '-', .number ⟨⟨true, 0, 0⟩, some Int64.minValue, false⟩] =
    none := by decide +kernel

section Reading

variable {step b : Int64} {minus : Bool} {unit name : List Char} {tokens rest : List Token}

theorem negated?_of_nonneg (nonneg : 0 ≤ b.toInt) : negated? b = some (-b) :=
  int64?_eq_some_iff.2 (toInt_neg_of_nonneg nonneg)

theorem product?_of_nonneg (nonneg : 0 ≤ b.toInt) :
    product? (if minus then -1 else 1) b = some (if minus then -b else b) := by
  cases minus with
  | true =>
    have product : (-1 : Int64).toInt * b.toInt = -b.toInt := Int.neg_one_mul _
    rw [if_pos rfl, if_pos rfl, product?, product]
    exact negated?_of_nonneg nonneg
  | false =>
    have product : (1 : Int64).toInt * b.toInt = b.toInt := Int.one_mul _
    rw [if_neg Bool.false_ne_true, if_neg Bool.false_ne_true, product?, product,
      int64?_eq_some_iff]

/-- Digits have no sign, so their negative fits whenever they do. -/
theorem dashOffset64?_eq (unit : List Char) : dashOffset64? unit = some (dashOffset? unit) := by
  unfold dashOffset64?
  split
  · rename_i digits
    rw [dashOffset?.eq_1]
    split
    · cases found : int64? (digitsValue digits) with
      | none => rfl
      | some b =>
        have nonneg : 0 ≤ b.toInt := by
          rw [int64?_eq_some_iff.1 found]
          exact Int.natCast_nonneg _
        rw [Option.elim_some, negated?_of_nonneg nonneg]
        rfl
    · rfl
  · rename_i other
    rw [dashOffset?.eq_2 _ other]

theorem afterSign64?_eq (natural : Natural rest) :
    afterSign64? step minus rest = some (afterSign step minus rest) := by
  unfold afterSign64? afterSign
  split
  · rename_i n behind
    cases signed : n.signed with
    | true => cases behind <;> simp [signed]
    | false =>
      cases found : n.integer? with
      | none => cases behind <;> simp [signed, found]
      | some b =>
        have nonneg := natural n List.mem_cons_self signed b found
        rw [Option.elim_some, product?_of_nonneg nonneg]
        cases behind <;> simp [signed, found]
  · rename_i other
    split
    · exact absurd rfl (other _ _)
    · rfl

theorem Natural.of_cons {token : Token} (natural : Natural (token :: rest)) : Natural rest :=
  fun n member => natural n (List.mem_cons_of_mem _ member)

theorem Natural.of_subset (natural : Natural tokens) (inside : rest ⊆ tokens) : Natural rest :=
  fun n member => natural n (inside member)

theorem Natural.left (natural : Natural (tokens ++ rest)) : Natural tokens :=
  natural.of_subset (List.subset_append_left tokens rest)

theorem Natural.right (natural : Natural (tokens ++ rest)) : Natural rest :=
  natural.of_subset (List.subset_append_right tokens rest)

theorem afterN64?_eq (natural : Natural rest) :
    afterN64? step rest = some (afterN step rest) := by
  unfold afterN64?
  split
  · exact afterSign64?_eq natural.of_cons
  · exact afterSign64?_eq natural.of_cons
  · rfl

theorem withStep64?_eq (natural : Natural rest) :
    withStep64? step unit rest = some (withStep step unit rest) := by
  unfold withStep64?
  split
  · exact afterN64?_eq natural
  · exact afterSign64?_eq natural
  · rename_i notAlone notDash
    rw [dashOffset64?_eq, Option.map_some, withStep.eq_3 _ _ _ notAlone notDash]

theorem ofIdent64?_eq (natural : Natural rest) :
    ofIdent64? name rest = some (ofIdent name rest) := by
  unfold ofIdent64?
  split
  · rfl
  · rfl
  · exact withStep64?_eq natural
  · rename_i notEven notOdd notNegative
    rw [withStep64?_eq natural, ofIdent.eq_4 _ _ notEven notOdd notNegative]

/-- An `An+B` is worked out within 64 bits if no number without a sign is negative. -/
theorem parse64?_eq (natural : Natural tokens) : parse64? tokens = some (parse? tokens) := by
  have solidNatural {rest : List Token} (behind : rest <:+ skipBlanks tokens) :
      Natural (solid rest) :=
    natural.of_subset fun token member =>
      (List.dropWhile_sublist _).subset (behind.subset (List.mem_filter.1 member).1)
  unfold parse64?
  split
  · rename_i n unit rest found
    have behind : rest <:+ skipBlanks tokens := found ▸ List.suffix_cons _ _
    rw [parse?, found]
    dsimp only
    cases n.integer? with
    | none => rfl
    | some a => exact withStep64?_eq (solidNatural behind)
  · rename_i name rest found
    have behind : rest <:+ skipBlanks tokens := found ▸ List.suffix_cons _ _
    rw [parse?, found]
    exact ofIdent64?_eq (solidNatural behind)
  · rename_i name rest found
    have behind : rest <:+ skipBlanks tokens :=
      found ▸ (List.suffix_cons _ _).trans (List.suffix_cons _ _)
    rw [parse?, found]
    exact withStep64?_eq (solidNatural behind)
  · rfl

end Reading

end AnPlusB

/-! ## Compiling in 64 bits -/

/-- `functionalMatcher` in 64 bits. -/
def functionalMatcher64? (name : String) (arguments : List Token) :
    Option (Except CompileError Matcher) :=
  match FunctionalPseudoClass.ofName? name with
  | some (.nth kind) =>
    (AnPlusB.parse64? arguments).map fun
      | some position => .ok (.test (.nth kind position))
      | none => .error (.invalidArguments name .anPlusB)
  | _ => some (functionalMatcher name arguments)

mutual

/-- `Simple.matcher` in 64 bits. -/
def Simple.matcher64? : Simple → Option (Except CompileError Matcher)
  | .functional name arguments => functionalMatcher64? name arguments
  | .negation inner =>
    (Simple.matchers64? inner).map fun members =>
      members.map fun members => (Matcher.all members).negate
  | simple => some simple.matcher

/-- `Simple.matchers` in 64 bits. -/
def Simple.matchers64? : List Simple → Option (Except CompileError (List Matcher))
  | [] => some (.ok [])
  | simple :: rest =>
    simple.matcher64?.bind fun
      | .error e => some (.error e)
      | .ok m => (Simple.matchers64? rest).map fun members => members.map (m :: ·)

end

/-- `Compound.matcher` in 64 bits. -/
def Compound.matcher64? (c : Compound) : Option (Except CompileError Matcher) :=
  (Simple.matchers64? c).map fun members => members.map Matcher.all

/-- `Chain.matcher` in 64 bits. -/
def Chain.matcher64? : Chain → Option (Except CompileError Matcher)
  | .single subject => Compound.matcher64? subject
  | .joined left k subject =>
    left.matcher64?.bind fun
      | .error e => some (.error e)
      | .ok relative =>
        (Compound.matcher64? subject).map fun own =>
          own.map fun own => .all [own, k.relation relative]

/-- `Selector.compile` in 64 bits. -/
def Selector.compile64? (s : Selector) : Option (Except CompileError Compiled) :=
  s.chain.matcher64?.map fun matcher =>
    matcher.map fun matcher =>
      { matcher := matcher
        specificity := s.specificity
        pseudoElement? := s.pseudoElement?
        hints := Compound.hints s.chain.subject }

/-- `compileAll` in 64 bits. -/
def compileAll64? : List Selector → Option (Except CompileError (List Compiled))
  | [] => some (.ok [])
  | s :: rest =>
    s.compile64?.bind fun
      | .error e => some (.error e)
      | .ok c => (compileAll64? rest).map fun compiled => compiled.map (c :: ·)

/-- `compileList` in 64 bits: nothing at all where a value on the way does not fit. -/
def compileList64? (text : String) (table : Namespaces) :
    Option (Except SelectorError (List Compiled)) :=
  match parse text table with
  | .error e => some (.error (.parse e))
  | .ok selectors => (compileAll64? selectors).map fun compiled => compiled.mapError .compile

/-- All arguments in some simple selectors have no negative number without a sign. -/
def NaturalArguments (simples : List Simple) : Prop :=
  ∀ name arguments, .functional name arguments ∈ simples → AnPlusB.Natural arguments

section Compiling

variable {simple : Simple} {front back simples : List Simple}

theorem NaturalArguments.of_subset (natural : NaturalArguments simples) (inside : front ⊆ simples) :
    NaturalArguments front :=
  fun name arguments member => natural name arguments (inside member)

theorem NaturalArguments.left (natural : NaturalArguments (front ++ back)) :
    NaturalArguments front :=
  natural.of_subset (List.subset_append_left front back)

theorem NaturalArguments.right (natural : NaturalArguments (front ++ back)) :
    NaturalArguments back :=
  natural.of_subset (List.subset_append_right front back)

theorem NaturalArguments.single (plain : ∀ name arguments, .functional name arguments ≠ simple) :
    NaturalArguments [simple] :=
  fun name arguments member => absurd (List.mem_singleton.1 member) (plain name arguments)

theorem NaturalArguments.append (inFront : NaturalArguments front)
    (behind : NaturalArguments back) : NaturalArguments (front ++ back) :=
  fun name arguments member =>
    (List.mem_append.1 member).elim (inFront name arguments) (behind name arguments)

theorem functionalMatcher64?_eq {name : String} {arguments : List Token}
    (natural : AnPlusB.Natural arguments) :
    functionalMatcher64? name arguments = some (functionalMatcher name arguments) := by
  unfold functionalMatcher64?
  split
  · rename_i kind known
    rw [AnPlusB.parse64?_eq natural, functionalMatcher, known]
    rfl
  · rfl

mutual

theorem Simple.matcher64?_eq : ∀ {simple : Simple}, NaturalArguments simple.parts →
    simple.matcher64? = some simple.matcher
  | .functional name arguments, natural =>
    functionalMatcher64?_eq (natural name arguments (List.mem_singleton_self _))
  | .negation inner, natural => by
    have inside : NaturalArguments (Simple.partsAll inner) :=
      natural.of_subset (List.subset_cons_self _ _)
    rw [Simple.matcher64?, Simple.matchers64?_eq inside]
    rfl
  | .typeName _, _ => rfl
  | .inNamespace _, _ => rfl
  | .className _, _ => rfl
  | .id _, _ => rfl
  | .hasAttribute _, _ => rfl
  | .pseudoClass _, _ => rfl

theorem Simple.matchers64?_eq : ∀ {c : List Simple}, NaturalArguments (Simple.partsAll c) →
    Simple.matchers64? c = some (Simple.matchers c)
  | [], _ => rfl
  | simple :: rest, natural => by
    rw [Simple.matchers64?, Simple.matcher64?_eq natural.left, Simple.matchers64?_eq natural.right,
      Simple.matchers]
    cases simple.matcher <;> rfl

end

theorem Compound.matcher64?_eq {c : Compound} (natural : NaturalArguments (Simple.partsAll c)) :
    Compound.matcher64? c = some (Compound.matcher c) := by
  rw [Compound.matcher64?, Simple.matchers64?_eq natural]
  rfl

theorem Chain.matcher64?_eq {chain : Chain} (natural : NaturalArguments chain.simples) :
    chain.matcher64? = some chain.matcher := by
  induction chain with
  | single subject => exact Compound.matcher64?_eq natural
  | joined left k subject ih =>
    rw [Chain.matcher64?, ih natural.left, Compound.matcher64?_eq natural.right, Chain.matcher]
    cases left.matcher with
    | error e => rfl
    | ok relative => cases Compound.matcher subject <;> rfl

theorem compileAll64?_eq {selectors : List Selector}
    (natural : ∀ s ∈ selectors, NaturalArguments s.chain.simples) :
    compileAll64? selectors = some (compileAll selectors) := by
  induction selectors with
  | nil => rfl
  | cons s rest ih =>
    have first := natural s List.mem_cons_self
    have others := fun s member => natural s (List.mem_cons_of_mem _ member)
    have compiles : s.compile64? = some s.compile := by
      rw [Selector.compile64?, Chain.matcher64?_eq first]
      rfl
    rw [compileAll64?, compiles, ih others, compileAll]
    cases s.compile <;> rfl

end Compiling

/-! ## Arguments are tokens of the text -/

namespace Grammar

variable {table : Namespaces}

/-- A name asks for no pseudo-class. -/
theorem SpellsType.naturalArguments {tokens : List Token} {types : Compound}
    (spells : SpellsType table tokens types) : NaturalArguments (Simple.partsAll types) := by
  intro name arguments member
  cases spells <;> simp [Simple.partsAll, Simple.parts] at member

mutual

theorem SpellsSimple.naturalArguments : ∀ {tokens : List Token} {simple : Simple},
    SpellsSimple table tokens simple → AnPlusB.Natural tokens → NaturalArguments simple.parts
  | _, _, .functional _ _, natural => by
    intro name arguments member
    obtain ⟨-, rfl⟩ := Simple.functional.inj (List.mem_singleton.1 member)
    exact natural.of_cons.of_cons.left
  | _, .negation members, .negation _ _ inner _ _, natural => by
    have own : NaturalArguments [.negation members] := .single fun _ _ => nofun
    exact own.append (inner.naturalArguments natural.of_cons.of_cons.right.left)
  | _, _, .id _, _ => .single nofun
  | _, _, .className _, _ => .single nofun
  | _, _, .hasAttribute _, _ => .single nofun
  | _, _, .pseudoClass _, _ => .single fun _ _ => nofun

theorem SpellsMembers.naturalArguments : ∀ {tokens : List Token} {members : Compound},
    SpellsMembers table tokens members → AnPlusB.Natural tokens →
      NaturalArguments (Simple.partsAll members)
  | _, _, .nil, _ => nofun
  | _, _, .cons first rest, natural =>
    (first.naturalArguments natural.left).append (rest.naturalArguments natural.right)

theorem SpellsPlain.naturalArguments : ∀ {tokens : List Token} {compound : Compound},
    SpellsPlain table tokens compound → AnPlusB.Natural tokens →
      NaturalArguments (Simple.partsAll compound)
  | _, _, .mk types members, natural => by
    rw [Simple.partsAll_append]
    exact types.naturalArguments.append (members.naturalArguments natural.right)

end

theorem SpellsCompound.naturalArguments {tokens : List Token} {compound : Compound}
    {pseudoElement? : Option String}
    (spells : SpellsCompound table tokens compound pseudoElement?)
    (natural : AnPlusB.Natural tokens) : NaturalArguments (Simple.partsAll compound) := by
  cases spells with
  | mk plain _ _ => exact plain.naturalArguments natural.left

theorem SpellsChain.naturalArguments {tokens : List Token} {chain : Chain}
    {pseudoElement? : Option String} (spells : SpellsChain table tokens chain pseudoElement?)
    (natural : AnPlusB.Natural tokens) : NaturalArguments chain.simples := by
  induction spells with
  | single compound => exact compound.naturalArguments natural
  | joined _ _ compound ih =>
    exact (ih natural.left).append (compound.naturalArguments natural.right.right)

/-- No argument of a selector has a negative number without a sign if the tokens have none. -/
theorem SpellsList.naturalArguments {tokens : List Token} {selectors : List Selector}
    (spells : SpellsList table tokens selectors) (natural : AnPlusB.Natural tokens) :
    ∀ s ∈ selectors, NaturalArguments s.chain.simples := by
  have selector {tokens : List Token} {s : Selector} (spells : SpellsSelector table tokens s)
      (natural : AnPlusB.Natural tokens) : NaturalArguments s.chain.simples := by
    cases spells with
    | mk _ chain _ => exact chain.naturalArguments natural.right.left
  induction spells with
  | last first => exact List.forall_mem_singleton.2 (selector first natural.left)
  | cons first _ ih =>
    exact List.forall_mem_cons.2 ⟨selector first natural.left, ih natural.right.of_cons⟩

end Grammar

/-! ## Open parentheses -/

namespace Reading

theorem length_le_length_cons (token : Token) (rest : List Token) :
    rest.length ≤ (token :: rest).length := Nat.le_succ rest.length

/-- `arguments` with the open parentheses counted by an integer: nothing at all where the count goes
below zero. -/
def argumentsCounted? (depth : Int) :
    (tokens : List Token) → Option (Except Failure (Parsed (List Token) tokens))
  | [] => some (.error ⟨.unclosedArguments, []⟩)
  | .eof :: rest => some (.error ⟨.unclosedArguments, rest⟩)
  | .rightParen :: rest =>
    if depth = 0 then some (.ok ⟨[], rest, length_le_length_cons .rightParen rest⟩)
    else if depth - 1 < 0 then none
    else (argumentsCounted? (depth - 1) rest).map (keep .rightParen)
  | .leftParen :: rest => (argumentsCounted? (depth + 1) rest).map (keep .leftParen)
  | .function name :: rest => (argumentsCounted? (depth + 1) rest).map (keep (.function name))
  | token :: rest => (argumentsCounted? depth rest).map (keep token)

/-- The count of open parentheses is a natural number all the way. -/
theorem argumentsCounted?_eq (depth : Nat) (tokens : List Token) :
    argumentsCounted? depth tokens = some (arguments depth tokens) := by
  fun_induction arguments depth tokens with
  | case1 => rfl
  | case2 => rfl
  | case3 => rfl
  | case4 rest depth ih =>
    have counted : ((depth + 1 : Nat) : Int) - 1 = depth := by omega
    have opened : ((depth + 1 : Nat) : Int) ≠ 0 := by omega
    have room : ¬ (depth : Int) < 0 := by omega
    rw [argumentsCounted?, if_neg opened, counted, if_neg room, ih]
    rfl
  | case5 depth rest ih =>
    rw [argumentsCounted?]
    exact congrArg (Option.map (keep .leftParen)) ih
  | case6 depth name rest ih =>
    rw [argumentsCounted?]
    exact congrArg (Option.map (keep (.function name))) ih
  | case7 depth token rest notEnd notClosing notOpening notFunction ih =>
    rw [argumentsCounted?, ih]
    · rfl
    all_goals assumption

end Reading

/-! ## Whole texts -/

theorem natural_tokenize (text : String) : AnPlusB.Natural (tokenize text) :=
  fun _ member => sound_tokenize text _ member

theorem compileList64?_eq (text : String) (table : Namespaces) :
    compileList64? text table = some (compileList text table) := by
  rw [compileList64?, compileList]
  cases parsed : parse text table with
  | error e => rfl
  | ok selectors =>
    have spells := spellsList_of_parse parsed
    dsimp only
    rw [compileAll64?_eq (spells.naturalArguments (natural_tokenize text))]
    cases compileAll selectors <;> rfl

/-- **Reading a text ends, and its tokens can be computed with.** The end of the text is the last
token and no other one; there are at most as many others as characters. No name is empty, and no
integer without a sign is negative. So whatever the text and the namespaces, no offset leaves 64
bits when it is negated or multiplied by its sign, and no count of open parentheses falls below
zero. -/
theorem reading_stays_within_bounds (text : String) :
    Grammar.Ended (tokenize text) ∧ (tokenize text).length ≤ text.length + 1 ∧
      (∀ token ∈ tokenize text, token.Sound) ∧
      (∀ tokens, Reading.argumentsCounted? 0 tokens = some (Reading.arguments 0 tokens)) ∧
      ∀ table, compileList64? text table = some (compileList text table) :=
  ⟨ended_tokenize text, length_tokenize_le text, sound_tokenize text,
    Reading.argumentsCounted?_eq 0, compileList64?_eq text⟩

end Selectors
