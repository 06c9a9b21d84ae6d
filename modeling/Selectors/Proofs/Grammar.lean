import Selectors.Proofs.Simples
import Selectors.Selector.Parser

/-!
The grammar of selector text, over tokens. Each relation says that some tokens, all of them and in
this order, spell a tree. The characters, the names and the trees are written out here; that the
tables of the readers hold the same is said right behind the relations (`declared_iff` and the
lemmas after it).

    list      = complex (',' complex)* eof
    complex   = ws* compound (comb compound)* ws*
    comb      = ws+ | ws* ('>' | '+' | '~') ws*
    compound  = type? simple* pseudo?, not empty
    type      = (name '|' | '*' '|' | '|')? (name | '*')
    simple    = id | '.' name | attribute | ':' name | ':' function arguments ')'
              | ':' 'not(' ws* type? simple* ws* ')', not empty
    attribute = '[' ws* (name '|' | '*' '|' | '|')? name ws* (op ws* (name | string) ws*)? ']'
    op        = '=' | ('~' | '|' | '^' | '$' | '*') '='
    pseudo    = ':' ':' name | ':' name

A name in front of a bar has to be declared. A name after a single colon is a pseudo-element if it
is one of four, else a pseudo-class. Only the last compound of a complex selector may end with a
pseudo-element.
-/

namespace Selectors

namespace Grammar

open Reading (QualifiedName)

/-! ## Blanks and arguments -/

/-- Nothing but blanks. -/
def Blanks (tokens : List Token) : Prop := ∀ token ∈ tokens, token = .blank

/-- A token that opens a parenthesis. -/
def opens : Token → Bool
  | .leftParen => true
  | .function _ => true
  | _ => false

/-- Tokens in which every parenthesis that is opened is closed and the other way round. -/
inductive Balanced : List Token → Prop
  | nil : Balanced []
  | plain {token : Token} {rest : List Token} :
    opens token = false → token ≠ .rightParen → token ≠ .eof → Balanced rest →
    Balanced (token :: rest)
  | group {opening : Token} {inner rest : List Token} :
    opens opening = true → Balanced inner → Balanced rest →
    Balanced (opening :: (inner ++ .rightParen :: rest))

/-! ## Names -/

/-- A name is declared with a URL, and no later declaration, of which the latest comes first, is one
of the same name. -/
def Declared (table : Namespaces) (name url : String) : Prop :=
  ∃ later earlier, table.bindings = later ++ (name, url) :: earlier ∧
    ∀ binding ∈ later, binding.1 ≠ name

/-- The local part of a name. In a type selector it may be a star, for any name. -/
inductive SpellsLocal : Bool → Token → Option String → Prop
  | name {star : Bool} (name : String) : SpellsLocal star (.ident name) (some name)
  | star : SpellsLocal true (.delim '*') none

/-- A name with or without a namespace, of a type selector (`star`) or of an attribute. -/
inductive SpellsName (table : Namespaces) (star : Bool) : List Token → QualifiedName → Prop
  | declared {lead url : String} {token : Token} {name? : Option String} :
    Declared table lead url → SpellsLocal star token name? →
    SpellsName table star [.ident lead, .delim '|', token] ⟨some url, name?⟩
  | anyNamespace {token : Token} {name? : Option String} :
    SpellsLocal star token name? →
    SpellsName table star [.delim '*', .delim '|', token] ⟨none, name?⟩
  | noNamespace {token : Token} {name? : Option String} :
    SpellsLocal star token name? →
    SpellsName table star [.delim '|', token] ⟨some "", name?⟩
  | bare {token : Token} {name? : Option String} :
    SpellsLocal star token name? →
    SpellsName table star [token] ⟨if star then table.unprefixed? else some "", name?⟩

/-- A type selector, which may be missing. A name and a namespace are one simple selector each, a star
is none. -/
inductive SpellsType (table : Namespaces) : List Token → Compound → Prop
  | missing : SpellsType table [] []
  | anything {tokens : List Token} :
    SpellsName table true tokens ⟨none, none⟩ → SpellsType table tokens []
  | named {tokens : List Token} {name : String} :
    SpellsName table true tokens ⟨none, some name⟩ → SpellsType table tokens [.typeName name]
  | inNamespace {tokens : List Token} {url : String} :
    SpellsName table true tokens ⟨some url, none⟩ → SpellsType table tokens [.inNamespace url]
  | namedInNamespace {tokens : List Token} {url name : String} :
    SpellsName table true tokens ⟨some url, some name⟩ →
    SpellsType table tokens [.typeName name, .inNamespace url]

/-! ## Attributes -/

inductive SpellsOperator : List Token → AttributeOperator → Prop
  | equals : SpellsOperator [.delim '='] .equals
  | includes : SpellsOperator [.delim '~', .delim '='] .includes
  | dashMatch : SpellsOperator [.delim '|', .delim '='] .dashMatch
  | startsWith : SpellsOperator [.delim '^', .delim '='] .startsWith
  | endsWith : SpellsOperator [.delim '$', .delim '='] .endsWith
  | contains : SpellsOperator [.delim '*', .delim '='] .contains

inductive SpellsOperand : Token → String → Prop
  | name (value : String) : SpellsOperand (.ident value) value
  | string (value : String) : SpellsOperand (.string value) value

/-- What follows the name in an attribute selector, up to the bracket. -/
inductive SpellsComparison : List Token → Option AttributeOperator → String → Prop
  | missing : SpellsComparison [.rightBracket] none ""
  | compared {sign front back : List Token} {token : Token} {operator : AttributeOperator}
    {value : String} :
    SpellsOperator sign operator → Blanks front → SpellsOperand token value → Blanks back →
    SpellsComparison (sign ++ (front ++ token :: (back ++ [.rightBracket]))) (some operator) value

inductive SpellsAttribute (table : Namespaces) : List Token → AttributeSelector → Prop
  | mk {front back name comparison : List Token} {namespaceUrl? : Option String}
    {localName : String} {operator? : Option AttributeOperator} {value : String} :
    Blanks front → SpellsName table false name ⟨namespaceUrl?, some localName⟩ → Blanks back →
    SpellsComparison comparison operator? value →
    SpellsAttribute table (.leftBracket :: (front ++ (name ++ (back ++ comparison))))
      ⟨namespaceUrl?, localName, operator?, value⟩

/-! ## Compounds -/

/-- The names of the pseudo-elements that may be written with a single colon. -/
def singleColonNames : List String := ["before", "after", "first-line", "first-letter"]

mutual

inductive SpellsSimple (table : Namespaces) : List Token → Simple → Prop
  | id (value : String) : SpellsSimple table [.hash value .id] (.id value)
  | className (name : String) : SpellsSimple table [.delim '.', .ident name] (.className name)
  | hasAttribute {tokens : List Token} {selector : AttributeSelector} :
    SpellsAttribute table tokens selector → SpellsSimple table tokens (.hasAttribute selector)
  | pseudoClass {name : String} : name.toLower ∉ singleColonNames →
    SpellsSimple table [.colon, .ident name] (.pseudoClass name.toLower)
  | functional {name : String} {arguments : List Token} :
    name.toLower ≠ "not" → Balanced arguments →
    SpellsSimple table (.colon :: .function name :: (arguments ++ [.rightParen]))
      (.functional name.toLower arguments)
  | negation {name : String} {front tokens back : List Token} {inner : Compound} :
    name.toLower = "not" → Blanks front → SpellsPlain table tokens inner → tokens ≠ [] →
    Blanks back →
    SpellsSimple table
      (.colon :: .function name :: (front ++ (tokens ++ (back ++ [.rightParen]))))
      (.negation inner)

/-- Any number of simple selectors. -/
inductive SpellsMembers (table : Namespaces) : List Token → Compound → Prop
  | nil : SpellsMembers table [] []
  | cons {first rest : List Token} {simple : Simple} {members : Compound} :
    SpellsSimple table first simple → SpellsMembers table rest members →
    SpellsMembers table (first ++ rest) (simple :: members)

/-- A compound without pseudo-element. It may still be empty. -/
inductive SpellsPlain (table : Namespaces) : List Token → Compound → Prop
  | mk {first rest : List Token} {types members : Compound} :
    SpellsType table first types → SpellsMembers table rest members →
    SpellsPlain table (first ++ rest) (types ++ members)

end

/-- A pseudo-element, which may be missing. -/
inductive SpellsEnding : List Token → Option String → Prop
  | missing : SpellsEnding [] none
  | doubled (name : String) : SpellsEnding [.colon, .colon, .ident name] (some name.toLower)
  | single {name : String} : name.toLower ∈ singleColonNames →
    SpellsEnding [.colon, .ident name] (some name.toLower)

/-- A whole compound, with the pseudo-element that it ends with. -/
inductive SpellsCompound (table : Namespaces) : List Token → Compound → Option String → Prop
  | mk {tokens ending : List Token} {compound : Compound} {pseudoElement? : Option String} :
    SpellsPlain table tokens compound → SpellsEnding ending pseudoElement? →
    tokens ++ ending ≠ [] → SpellsCompound table (tokens ++ ending) compound pseudoElement?

/-! ## Chains and lists -/

/-- The combinators that are written with a character of their own. -/
inductive SpellsSymbol : Char → Combinator → Prop
  | child : SpellsSymbol '>' .child
  | nextSibling : SpellsSymbol '+' .nextSibling
  | subsequentSibling : SpellsSymbol '~' .subsequentSibling

inductive SpellsCombinator : List Token → Combinator → Prop
  | descendant {blanks : List Token} : Blanks blanks → blanks ≠ [] →
    SpellsCombinator blanks .descendant
  | symbol {front back : List Token} {c : Char} {k : Combinator} :
    SpellsSymbol c k → Blanks front → Blanks back →
    SpellsCombinator (front ++ .delim c :: back) k

/-- Compounds with combinators between them, with the pseudo-element that the last one ends with.
The others have none. -/
inductive SpellsChain (table : Namespaces) : List Token → Chain → Option String → Prop
  | single {tokens : List Token} {compound : Compound} {pseudoElement? : Option String} :
    SpellsCompound table tokens compound pseudoElement? →
    SpellsChain table tokens (.single compound) pseudoElement?
  | joined {left sign tokens : List Token} {chain : Chain} {k : Combinator} {compound : Compound}
    {pseudoElement? : Option String} :
    SpellsChain table left chain none → SpellsCombinator sign k →
    SpellsCompound table tokens compound pseudoElement? →
    SpellsChain table (left ++ (sign ++ tokens)) (.joined chain k compound) pseudoElement?

/-- A chain with the blanks around it. Its tree holds the chain itself, how much is written in it
and the pseudo-element. -/
inductive SpellsSelector (table : Namespaces) : List Token → Selector → Prop
  | mk {front tokens back : List Token} {chain : Chain} {pseudoElement? : Option String} :
    Blanks front → SpellsChain table tokens chain pseudoElement? → Blanks back →
    SpellsSelector table (front ++ (tokens ++ back))
      ⟨chain, chain.tally pseudoElement?, pseudoElement?⟩

/-- A whole text. -/
inductive SpellsList (table : Namespaces) : List Token → List Selector → Prop
  | last {tokens : List Token} {selector : Selector} :
    SpellsSelector table tokens selector → SpellsList table (tokens ++ [.eof]) [selector]
  | cons {tokens rest : List Token} {selector : Selector} {selectors : List Selector} :
    SpellsSelector table tokens selector → SpellsList table rest selectors →
    SpellsList table (tokens ++ .comma :: rest) (selector :: selectors)

/-! ## Tables and trees of the readers -/

section Building

variable {table : Namespaces} {tokens front back : List Token}

theorem declared_iff {name url : String} :
    Declared table name url ↔ table.resolve? name = some url := by
  rw [Declared, Namespaces.resolve?, List.lookup_eq_some_iff]
  simp only [bne_iff_ne, ne_comm]

theorem spellsOperator_of_lead {lead : Char} {operator : AttributeOperator}
    (known : AttributeOperator.ofLead? lead = some operator) :
    SpellsOperator [.delim lead, .delim '='] operator := by
  unfold AttributeOperator.ofLead? at known
  split at known <;> cases known
  · exact .includes
  · exact .dashMatch
  · exact .startsWith
  · exact .endsWith
  · exact .contains

theorem mem_singleColonNames_iff {name : String} :
    name ∈ singleColonNames ↔ Reading.singleColonPseudoElements.contains name = true :=
  List.contains_iff_mem.symm

theorem SpellsType.of_name {name : QualifiedName} (spells : SpellsName table true tokens name) :
    SpellsType table tokens name.selectors := by
  match name, spells with
  | ⟨none, none⟩, spells => exact .anything spells
  | ⟨none, some _⟩, spells => exact .named spells
  | ⟨some _, none⟩, spells => exact .inNamespace spells
  | ⟨some _, some _⟩, spells => exact .namedInNamespace spells

/-- A type selector is missing or has a name. -/
theorem SpellsType.eq_nil_or_name {types : Compound} (spells : SpellsType table tokens types) :
    (tokens = [] ∧ types = []) ∨
      ∃ name, SpellsName table true tokens name ∧ types = name.selectors := by
  cases spells with
  | missing => exact Or.inl ⟨rfl, rfl⟩
  | anything name | named name | inNamespace name | namedInNamespace name =>
    exact Or.inr ⟨_, name, rfl⟩

theorem SpellsSelector.of_chain {chain : Chain} {pseudoElement? : Option String}
    (frontBlanks : Blanks front) (spells : SpellsChain table tokens chain pseudoElement?)
    (backBlanks : Blanks back) :
    SpellsSelector table (front ++ (tokens ++ back)) (.ofChain chain pseudoElement?) := by
  rw [Selector.ofChain_eq]
  exact .mk frontBlanks spells backBlanks

end Building

/-! ## Blanks -/

variable {table : Namespaces} {tokens front : List Token}

/-- The blanks at the start of tokens can be split off. -/
theorem exists_blanks (tokens : List Token) :
    ∃ front, Blanks front ∧ tokens = front ++ skipBlanks tokens := by
  refine ⟨tokens.takeWhile (· == .blank), fun token member => ?_, ?_⟩
  · exact eq_of_beq (List.all_eq_true.1 List.all_takeWhile token member)
  · exact (List.takeWhile_append_dropWhile).symm

/-- Skipping the blanks in front of something else skips just these. -/
theorem skipBlanks_append (blanks : Blanks front) (solid : ∀ t ∈ tokens.head?, t ≠ .blank) :
    skipBlanks (front ++ tokens) = tokens := by
  induction front with
  | nil =>
    cases tokens with
    | nil => rfl
    | cons token rest => exact List.dropWhile_cons_of_neg (by simpa using solid)
  | cons token front ih =>
    have here := blanks token (List.mem_cons_self ..)
    have later : Blanks front := fun t member => blanks t (List.mem_cons_of_mem _ member)
    rw [here]
    exact ih later

/-! ## First tokens -/

/-- A token that a type selector can start with. -/
def startsType : Token → Bool
  | .ident _ => true
  | .delim c => c == '*' || c == '|'
  | _ => false

/-- A token that a simple selector or a pseudo-element can start with. -/
def startsMember : Token → Bool
  | .hash _ _ => true
  | .delim c => c == '.'
  | .leftBracket => true
  | .colon => true
  | _ => false

/-- The tokens do not start with the start of a type selector. -/
def NoType (tokens : List Token) : Prop := ∀ t ∈ tokens.head?, startsType t = false

/-- The tokens do not start with the start of a simple selector or a pseudo-element. -/
def NoMember (tokens : List Token) : Prop := ∀ t ∈ tokens.head?, startsMember t = false

theorem noType_of_startsMember {token : Token} {rest : List Token}
    (starts : startsMember token = true) : NoType (token :: rest) := by
  intro t here
  rw [List.head?_cons, Option.mem_some_iff] at here
  rw [← here]
  cases token with
  | delim c =>
    have isDot : c = '.' := eq_of_beq starts
    rw [isDot]
    rfl
  | _ => first | rfl | cases starts

/-- What follows a compound without belonging to it. -/
def Follows (tokens : List Token) : Prop := NoType tokens ∧ NoMember tokens

theorem follows_cons {token : Token} {rest : List Token}
    (apart : (startsType token || startsMember token) = false) : Follows (token :: rest) := by
  rw [Bool.or_eq_false_iff] at apart
  constructor
  · intro t here
    cases here
    exact apart.1
  · intro t here
    cases here
    exact apart.2

theorem Follows.blanks (follows : Follows tokens) (blanks : Blanks front) :
    Follows (front ++ tokens) := by
  cases front with
  | nil => exact follows
  | cons token front =>
    rw [blanks token (List.mem_cons_self ..)]
    exact follows_cons rfl

theorem SpellsCombinator.follows {k : Combinator} {rest : List Token}
    (spells : SpellsCombinator tokens k) : Follows (tokens ++ rest) := by
  cases spells with
  | descendant blanks full =>
    cases tokens with
    | nil => exact absurd rfl full
    | cons token more =>
      rw [blanks token (List.mem_cons_self ..)]
      exact follows_cons rfl
  | symbol symbol front _ =>
    rw [List.append_assoc]
    refine Follows.blanks (follows_cons ?_) front
    cases symbol <;> rfl

theorem SpellsName.starts {star : Bool} {name : QualifiedName}
    (spells : SpellsName table star tokens name) :
    ∃ token rest, tokens = token :: rest ∧ startsType token = true := by
  cases spells with
  | declared _ _ => exact ⟨_, _, rfl, rfl⟩
  | anyNamespace _ => exact ⟨_, _, rfl, rfl⟩
  | noNamespace _ => exact ⟨_, _, rfl, rfl⟩
  | bare part =>
    cases part with
    | name name => exact ⟨_, _, rfl, rfl⟩
    | star => exact ⟨_, _, rfl, rfl⟩

theorem SpellsSimple.starts {simple : Simple} (spells : SpellsSimple table tokens simple) :
    ∃ token rest, tokens = token :: rest ∧ startsMember token = true := by
  cases spells with
  | hasAttribute selector =>
    cases selector
    exact ⟨_, _, rfl, rfl⟩
  | _ => exact ⟨_, _, rfl, rfl⟩

theorem SpellsEnding.starts {pseudoElement? : Option String}
    (spells : SpellsEnding tokens pseudoElement?) :
    tokens = [] ∨ ∃ rest, tokens = .colon :: rest := by
  cases spells with
  | missing => exact Or.inl rfl
  | doubled name => exact Or.inr ⟨_, rfl⟩
  | single _ => exact Or.inr ⟨_, rfl⟩

/-- What follows a type selector is not another one. -/
theorem SpellsMembers.noType {members : Compound} {rest : List Token}
    (spells : SpellsMembers table tokens members) (noType : NoType rest) :
    NoType (tokens ++ rest) := by
  cases spells with
  | nil => exact noType
  | cons simple _ =>
    rcases simple.starts with ⟨token, more, rfl, starts⟩
    exact noType_of_startsMember starts

theorem SpellsEnding.noType {pseudoElement? : Option String} {rest : List Token}
    (spells : SpellsEnding tokens pseudoElement?) (noType : NoType rest) :
    NoType (tokens ++ rest) := by
  rcases spells.starts with rfl | ⟨more, rfl⟩
  · exact noType
  · exact noType_of_startsMember rfl

/-- A compound that is not empty starts with one of its tokens. -/
theorem SpellsPlain.starts {compound : Compound} (spells : SpellsPlain table tokens compound)
    (full : tokens ≠ []) :
    ∃ token rest, tokens = token :: rest ∧ (startsType token || startsMember token) = true := by
  cases spells with
  | mk types members =>
    rcases types.eq_nil_or_name with ⟨rfl, rfl⟩ | ⟨name, named, rfl⟩
    · cases members with
      | nil => exact absurd rfl full
      | cons simple _ =>
        rcases simple.starts with ⟨token, more, rfl, starts⟩
        exact ⟨token, _, rfl, by rw [starts, Bool.or_true]⟩
    · rcases named.starts with ⟨token, more, rfl, starts⟩
      exact ⟨token, _, rfl, by rw [starts, Bool.true_or]⟩

/-- Blanks in front of a compound end where it starts. -/
theorem solid_of_starts {token : Token}
    (starts : (startsType token || startsMember token) = true) (rest : List Token) :
    ∀ t ∈ (token :: rest).head?, t ≠ .blank := by
  intro t here same
  cases here
  rw [same] at starts
  cases starts

theorem SpellsCompound.starts {compound : Compound} {pseudoElement? : Option String}
    (spells : SpellsCompound table tokens compound pseudoElement?) :
    ∃ token rest, tokens = token :: rest ∧ (startsType token || startsMember token) = true := by
  cases spells with
  | @mk first ending _ _ plain last full =>
    by_cases empty : first = []
    · rcases last.starts with missing | ⟨more, rfl⟩
      · rw [empty, missing] at full
        exact absurd rfl full
      · exact ⟨.colon, more, by rw [empty, List.nil_append], rfl⟩
    · rcases plain.starts empty with ⟨token, more, rfl, starts⟩
      exact ⟨token, _, rfl, starts⟩

theorem SpellsCompound.ne_nil {compound : Compound} {pseudoElement? : Option String}
    (spells : SpellsCompound table tokens compound pseudoElement?) : tokens ≠ [] := by
  cases spells with
  | mk _ _ full => exact full

theorem SpellsCompound.solid {compound : Compound} {pseudoElement? : Option String}
    (spells : SpellsCompound table tokens compound pseudoElement?) (rest : List Token) :
    ∀ t ∈ (tokens ++ rest).head?, t ≠ .blank := by
  rcases spells.starts with ⟨token, more, rfl, starts⟩
  exact solid_of_starts starts _

/-! ## The end of the text

Nothing but a whole text has the end of the text among its tokens. -/

theorem Blanks.eof_notMem (blanks : Blanks tokens) : .eof ∉ tokens := by
  intro member
  cases blanks .eof member

theorem Balanced.eof_notMem (balanced : Balanced tokens) : .eof ∉ tokens := by
  induction balanced with
  | nil => exact List.not_mem_nil
  | plain _ _ notEnd _ ih => simp [ih, notEnd.symm]
  | @group opening _ _ isOpening _ _ ihInner ihRest =>
    have notEnd : .eof ≠ opening := by
      intro same
      rw [← same] at isOpening
      cases isOpening
    simp [ihInner, ihRest, notEnd]

theorem SpellsName.eof_notMem {star : Bool} {name : QualifiedName}
    (spells : SpellsName table star tokens name) : .eof ∉ tokens := by
  have part {token : Token} {name? : Option String} (spells : SpellsLocal star token name?) :
      .eof ≠ token := by
    cases spells <;> nofun
  cases spells with
  | declared _ last => simp [part last]
  | anyNamespace last => simp [part last]
  | noNamespace last => simp [part last]
  | bare last => simp [part last]

theorem SpellsType.eof_notMem {types : Compound} (spells : SpellsType table tokens types) :
    .eof ∉ tokens := by
  rcases spells.eq_nil_or_name with ⟨rfl, -⟩ | ⟨name, named, -⟩
  · exact List.not_mem_nil
  · exact named.eof_notMem

theorem SpellsComparison.eof_notMem {operator? : Option AttributeOperator} {value : String}
    (spells : SpellsComparison tokens operator? value) : .eof ∉ tokens := by
  cases spells with
  | missing => simp
  | compared sign front operand back =>
    cases sign <;> cases operand <;> simp [front.eof_notMem, back.eof_notMem]

theorem SpellsAttribute.eof_notMem {selector : AttributeSelector}
    (spells : SpellsAttribute table tokens selector) : .eof ∉ tokens := by
  cases spells with
  | mk front name back comparison =>
    simp [front.eof_notMem, name.eof_notMem, back.eof_notMem, comparison.eof_notMem]

mutual

theorem SpellsSimple.eof_notMem : ∀ {tokens : List Token} {simple : Simple},
    SpellsSimple table tokens simple → .eof ∉ tokens
  | _, _, .id value => by simp
  | _, _, .className name => by simp
  | _, _, .hasAttribute selector => selector.eof_notMem
  | _, _, .pseudoClass _ => by simp
  | _, _, .functional _ balanced => by simp [balanced.eof_notMem]
  | _, _, .negation _ front inner _ back => by
    simp [front.eof_notMem, inner.eof_notMem, back.eof_notMem]

theorem SpellsMembers.eof_notMem : ∀ {tokens : List Token} {members : Compound},
    SpellsMembers table tokens members → .eof ∉ tokens
  | _, _, .nil => List.not_mem_nil
  | _, _, .cons first rest => by simp [first.eof_notMem, rest.eof_notMem]

theorem SpellsPlain.eof_notMem : ∀ {tokens : List Token} {compound : Compound},
    SpellsPlain table tokens compound → .eof ∉ tokens
  | _, _, .mk types members => by simp [types.eof_notMem, members.eof_notMem]

end

theorem SpellsCompound.eof_notMem {compound : Compound} {pseudoElement? : Option String}
    (spells : SpellsCompound table tokens compound pseudoElement?) : .eof ∉ tokens := by
  cases spells with
  | mk plain last _ => cases last <;> simp [plain.eof_notMem]

theorem SpellsCombinator.eof_notMem {k : Combinator} (spells : SpellsCombinator tokens k) :
    .eof ∉ tokens := by
  cases spells with
  | descendant blanks _ => exact blanks.eof_notMem
  | symbol _ front back => simp [front.eof_notMem, back.eof_notMem]

theorem SpellsChain.eof_notMem {chain : Chain} {pseudoElement? : Option String}
    (spells : SpellsChain table tokens chain pseudoElement?) : .eof ∉ tokens := by
  induction spells with
  | single compound => exact compound.eof_notMem
  | joined _ sign compound ih => simp [ih, sign.eof_notMem, compound.eof_notMem]

theorem SpellsSelector.eof_notMem {selector : Selector}
    (spells : SpellsSelector table tokens selector) : .eof ∉ tokens := by
  cases spells with
  | mk front chain back => simp [front.eof_notMem, chain.eof_notMem, back.eof_notMem]

/-- The tokens end with the end of the text, which stands nowhere else among them. -/
def Ended (tokens : List Token) : Prop := ∃ body, tokens = body ++ [.eof] ∧ .eof ∉ body

theorem Ended.of_append {rest : List Token} (ended : Ended (front ++ rest))
    (inside : .eof ∉ front) : Ended rest := by
  rcases ended with ⟨body, same, notMem⟩
  rcases List.append_eq_append_iff.1 same with ⟨more, split, rfl⟩ | ⟨more, split, last⟩
  · rw [split, List.mem_append, not_or] at notMem
    exact ⟨more, rfl, notMem.2⟩
  · cases more with
    | nil => exact ⟨[], last.symm, List.not_mem_nil⟩
    | cons token more =>
      rw [List.cons_append, List.cons.injEq] at last
      rw [split, ← last.1] at inside
      simp at inside

theorem Ended.eq_nil {rest : List Token} (ended : Ended (.eof :: rest)) : rest = [] := by
  rcases ended with ⟨body, same, notMem⟩
  cases body with
  | nil => exact (List.cons.inj same).2
  | cons token body =>
    rw [List.cons_append, List.cons.injEq] at same
    rw [← same.1] at notMem
    simp at notMem

theorem not_ended_nil : ¬ Ended [] := by
  intro ⟨body, same, _⟩
  simp at same

end Grammar

end Selectors
