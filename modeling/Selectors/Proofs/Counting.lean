import Selectors.Proofs.Pieces

/-!
Specificity read off the tokens. The tokens of a selector are looked at with their neighbours
(`occurrences`), and its specificity is how many of each kind there are (`specificity_of_parse`).

The count is followed along the grammar by `Weighs`, which says what some tokens add to it whatever
stands in front of them. What stands behind matters to a name only, which is a namespace if a bar
follows; hence the tokens behind a type selector have to be `NoType`.
-/

namespace Selectors

open Grammar
open Reading (QualifiedName)

/-! ## Counting -/

/-- A token with the tokens next to it. -/
structure Occurrence : Type where
  before? : Option Token
  token : Token
  after? : Option Token
  /-- It stands in square brackets. -/
  bracketed : Bool

/-- Whether the tokens behind a token stand in square brackets. -/
def staysBracketed (bracketed : Bool) : Token → Bool
  | .leftBracket => true
  | .rightBracket => false
  | _ => bracketed

/-- Tokens with their neighbours, where `before?` stands in front of them. -/
def occurrences (before? : Option Token) (bracketed : Bool) : List Token → List Occurrence
  | [] => []
  | token :: rest =>
    ⟨before?, token, rest.head?, bracketed⟩ ::
      occurrences (some token) (staysBracketed bracketed token) rest

namespace Occurrence

def isHash (o : Occurrence) : Bool :=
  match o.token with
  | .hash _ _ => true
  | _ => false

def isDot (o : Occurrence) : Bool := o.token == .delim '.'

def opensBracket (o : Occurrence) : Bool := o.token == .leftBracket

/-- It is the colon of a pseudo-class that is not a negation. -/
def startsPseudoClass (o : Occurrence) : Bool :=
  o.token == .colon && o.before? != some .colon &&
    match o.after? with
    | some (.ident name) => !singleColonNames.contains name.toLower
    | some (.function name) => name.toLower != "not"
    | _ => false

/-- It is a name, and neither part of an attribute selector nor a class nor the name of something
with a colon nor a namespace. -/
def isTypeName (o : Occurrence) : Bool :=
  match o.token with
  | .ident _ =>
    !o.bracketed && o.before? != some (.delim '.') && o.before? != some .colon &&
      o.after? != some (.delim '|')
  | _ => false

/-- What a token counts in its place. -/
def weight (o : Occurrence) : Specificity :=
  ⟨o.isHash.toNat, o.isDot.toNat + o.opensBracket.toNat + o.startsPseudoClass.toNat,
    o.isTypeName.toNat⟩

end Occurrence

/-- How many hashes, how many dots, opening brackets and pseudo-classes, and how many type names
there are among tokens. -/
def Specificity.counted (os : List Occurrence) : Specificity where
  ids := os.countP (·.isHash)
  classes := os.countP (·.isDot) + os.countP (·.opensBracket) + os.countP (·.startsPseudoClass)
  types := os.countP (·.isTypeName)

namespace Specificity

theorem zero_add (s : Specificity) : zero + s = s := by
  ext <;> simp [add_def, zero]

theorem add_zero (s : Specificity) : s + zero = s := by
  ext <;> simp [add_def, zero]

theorem add_assoc (s t u : Specificity) : s + t + u = s + (t + u) := by
  ext <;> simp [add_def, Nat.add_assoc]

theorem counted_cons (o : Occurrence) (os : List Occurrence) :
    counted (o :: os) = o.weight + counted os := by
  have one (p : Occurrence → Bool) : (o :: os).countP p = (p o).toNat + os.countP p := by
    rw [List.countP_cons, Nat.add_comm]
    cases p o <;> rfl
  ext
  case ids => exact one _
  case classes =>
    simp only [counted, one, add_def, Occurrence.weight]
    omega
  case types => exact one _

end Specificity

theorem Simple.specificitySum_append (c d : Compound) :
    Simple.specificitySum (c ++ d) = Simple.specificitySum c + Simple.specificitySum d := by
  simp only [specificitySum_eq, partsAll_append, Specificity.ofSimples_append]

/-! ## Weighing -/

/-- The token counts nothing wherever it stands. -/
def isQuiet : Token → Bool
  | .string _ => true
  | .blank => true
  | .rightParen => true
  | .delim c => c != '.'
  | _ => false

/-- A name behind the token, if there is one, can be a type name, and a colon can start a
pseudo-class. -/
def Free (before? : Option Token) : Prop := before? ≠ some (.delim '.') ∧ before? ≠ some .colon

/-- What tokens count behind a given one. -/
def weighed (before? : Option Token) (bracketed : Bool) (tokens : List Token) : Specificity :=
  .counted (occurrences before? bracketed (written 0 tokens))

/-- Tokens in front of others add something to their count, whatever stands in front of them. -/
def Weighs (tokens rest : List Token) (s : Specificity) : Prop :=
  ∀ before?, Free before? → ∃ after?, Free after? ∧
    weighed before? false (tokens ++ rest) = s + weighed after? false rest

section Weighing

variable {table : Namespaces} {token : Token} {tokens rest : List Token} {before? : Option Token}
variable {s t : Specificity} {bracketed : Bool} {name : String}

theorem free_of_ne (notDot : token ≠ .delim '.') (notColon : token ≠ .colon) :
    Free (some token) :=
  ⟨fun same => notDot (Option.some.inj same), fun same => notColon (Option.some.inj same)⟩

theorem weighed_nil : weighed before? bracketed [] = .zero := rfl

theorem weighed_cons (keeps : takesArguments token = false) :
    weighed before? bracketed (token :: rest) =
      Occurrence.weight ⟨before?, token, rest.head?, bracketed⟩ +
        weighed (some token) (staysBracketed bracketed token) rest := by
  have head : (written 0 rest).head? = rest.head? := by
    cases rest <;> rfl
  rw [weighed, written, keeps, if_neg Bool.false_ne_true, occurrences, Specificity.counted_cons,
    head]
  rfl

/-- The arguments of a functional pseudo-class count nothing. -/
theorem weighed_call {args : List Token} (takes : takesArguments (.function name) = true)
    (balanced : Balanced args) :
    weighed before? false (.function name :: (args ++ .rightParen :: rest)) =
      weighed (some .rightParen) false rest := by
  have closing : written 1 (.rightParen :: rest) = .rightParen :: written 0 rest := rfl
  rw [weighed, written, takes, if_pos rfl, balanced.written_append, closing, occurrences,
    occurrences, Specificity.counted_cons, Specificity.counted_cons]
  exact (Specificity.zero_add _).trans (Specificity.zero_add _)

theorem weight_of_isQuiet (quiet : isQuiet token = true) (after? : Option Token) :
    Occurrence.weight ⟨before?, token, after?, bracketed⟩ = .zero := by
  cases token with
  | delim c =>
    have notDot : Token.delim c ≠ .delim '.' :=
      fun same => bne_iff_ne.1 quiet (Token.delim.inj same)
    simp [Occurrence.weight, Occurrence.isHash, Occurrence.isDot, Occurrence.opensBracket,
      Occurrence.startsPseudoClass, Occurrence.isTypeName, notDot, Specificity.zero]
  | _ => first | rfl | cases quiet

theorem weight_of_isInert (inert : isInert token = true) (after? : Option Token) :
    Occurrence.weight ⟨before?, token, after?, true⟩ = .zero := by
  cases token with
  | ident _ => rfl
  | string _ => rfl
  | blank => rfl
  | delim c =>
    have quiet : isQuiet (.delim c) = true := inert
    exact weight_of_isQuiet quiet after?
  | _ => cases inert

theorem weight_colon {after? : Option Token} {starts : Bool}
    (same : Occurrence.startsPseudoClass ⟨before?, .colon, after?, false⟩ = starts) :
    Occurrence.weight ⟨before?, .colon, after?, false⟩ = ⟨0, starts.toNat, 0⟩ := by
  rw [← same, ← Nat.zero_add (Bool.toNat _)]
  rfl

theorem weight_ident {after? : Option Token} {counts : Bool}
    (same : Occurrence.isTypeName ⟨before?, .ident name, after?, false⟩ = counts) :
    Occurrence.weight ⟨before?, .ident name, after?, false⟩ = ⟨0, 0, counts.toNat⟩ := by
  rw [← same]
  rfl

/-- What stands in brackets counts nothing. -/
theorem weighed_bracketed {inner : List Token} (inert : ∀ t ∈ inner, isInert t = true) :
    weighed before? true (inner ++ .rightBracket :: rest) =
      weighed (some .rightBracket) false rest := by
  induction inner generalizing before? with
  | nil => exact (weighed_cons rfl).trans (Specificity.zero_add _)
  | cons token inner ih =>
    rw [List.forall_mem_cons] at inert
    have keeps : takesArguments token = false := by
      cases token <;> first | rfl | cases inert.1
    have stays : staysBracketed true token = true := by
      cases token <;> first | rfl | cases inert.1
    rw [List.cons_append, weighed_cons keeps, weight_of_isInert inert.1, stays, ih inert.2,
      Specificity.zero_add]

namespace Weighs

theorem nil : Weighs [] rest .zero :=
  fun before? free => ⟨before?, free, (Specificity.zero_add _).symm⟩

theorem append {more : List Token} (first : Weighs tokens (more ++ rest) s)
    (second : Weighs more rest t) : Weighs (tokens ++ more) rest (s + t) := by
  intro before? free
  obtain ⟨between?, free', here⟩ := first before? free
  obtain ⟨after?, free'', there⟩ := second between? free'
  refine ⟨after?, free'', ?_⟩
  rw [List.append_assoc, here, there, Specificity.add_assoc]

/-- Tokens in front that count nothing. -/
theorem of_zero {more : List Token} (first : Weighs tokens (more ++ rest) .zero)
    (second : Weighs more rest t) : Weighs (tokens ++ more) rest t := by
  have both := first.append second
  rwa [Specificity.zero_add] at both

/-- Tokens behind that count nothing. -/
theorem then_zero {more : List Token} (first : Weighs tokens (more ++ rest) s)
    (second : Weighs more rest .zero) : Weighs (tokens ++ more) rest s := by
  have both := first.append second
  rwa [Specificity.add_zero] at both

/-- A token on its own. -/
theorem one (keeps : takesArguments token = false)
    (unbracketed : staysBracketed false token = false) (free : Free (some token))
    (weight : ∀ before?, Free before? →
      Occurrence.weight ⟨before?, token, rest.head?, false⟩ = s) : Weighs [token] rest s := by
  intro before? free'
  refine ⟨some token, free, ?_⟩
  rw [List.singleton_append, weighed_cons keeps, unbracketed, weight before? free']

theorem quiet (quiet : ∀ t ∈ tokens, isQuiet t = true) : Weighs tokens rest .zero := by
  induction tokens with
  | nil => exact .nil
  | cons token tokens ih =>
    rw [List.forall_mem_cons] at quiet
    have keeps : takesArguments token = false := by
      cases token <;> first | rfl | cases quiet.1
    have unbracketed : staysBracketed false token = false := by
      cases token <;> first | rfl | cases quiet.1
    have free : Free (some token) := by
      constructor
      · rintro ⟨⟩
        cases quiet.1
      · rintro ⟨⟩
        cases quiet.1
    exact of_zero (.one keeps unbracketed free fun _ _ => weight_of_isQuiet quiet.1 _) (ih quiet.2)

theorem blanks (blanks : Blanks tokens) : Weighs tokens rest .zero := by
  refine .quiet fun t member => ?_
  rw [blanks t member]
  rfl

/-- A name that stands on its own counts as a type. -/
theorem typeName (noType : NoType rest) : Weighs [.ident name] rest ⟨0, 0, 1⟩ := by
  refine .one rfl rfl (free_of_ne nofun nofun) fun before? free => ?_
  have noBar : rest.head? ≠ some (.delim '|') := by
    intro here
    cases noType _ here
  have isType : Occurrence.isTypeName ⟨before?, .ident name, rest.head?, false⟩ = true := by
    simp [Occurrence.isTypeName, free.1, free.2, noBar]
  exact weight_ident isType

/-- A namespace counts nothing. -/
theorem namespaceName : Weighs [.ident name] (.delim '|' :: rest) .zero := by
  refine .one rfl rfl (free_of_ne nofun nofun) fun before? _ => ?_
  have notType :
      Occurrence.isTypeName ⟨before?, .ident name, some (.delim '|'), false⟩ = false := by
    simp [Occurrence.isTypeName]
  exact weight_ident notType

theorem localPart {url? name? : Option String} (spells : SpellsLocal true token name?)
    (noType : NoType rest) :
    Weighs [token] rest (Simple.specificitySum (QualifiedName.selectors ⟨url?, name?⟩)) := by
  cases spells with
  | name name =>
    have counts :
        Simple.specificitySum (QualifiedName.selectors ⟨url?, some name⟩) = ⟨0, 0, 1⟩ := by
      cases url? <;> rfl
    rw [counts]
    exact .typeName noType
  | star =>
    have counts : Simple.specificitySum (QualifiedName.selectors ⟨url?, none⟩) = .zero := by
      cases url? <;> rfl
    rw [counts]
    exact .quiet (List.forall_mem_singleton.2 rfl)

theorem qualifiedName {q : QualifiedName} (spells : SpellsName table true tokens q)
    (noType : NoType rest) : Weighs tokens rest (Simple.specificitySum q.selectors) := by
  have bar {more : List Token} : Weighs [.delim '|'] more .zero :=
    .quiet (List.forall_mem_singleton.2 rfl)
  have any {more : List Token} : Weighs [.delim '*'] more .zero :=
    .quiet (List.forall_mem_singleton.2 rfl)
  cases spells with
  | declared _ last => exact .of_zero .namespaceName (.of_zero bar (.localPart last noType))
  | anyNamespace last => exact .of_zero any (.of_zero bar (.localPart last noType))
  | noNamespace last => exact .of_zero bar (.localPart last noType)
  | bare last => exact .localPart last noType

theorem typeSelector {types : Compound} (spells : SpellsType table tokens types)
    (noType : NoType rest) : Weighs tokens rest (Simple.specificitySum types) := by
  rcases spells.eq_nil_or_name with ⟨rfl, rfl⟩ | ⟨name, named, rfl⟩
  · exact .nil
  · exact .qualifiedName named noType

theorem attributeSelector {selector : AttributeSelector}
    (spells : SpellsAttribute table tokens selector) : Weighs tokens rest ⟨0, 1, 0⟩ := by
  obtain ⟨inner, rfl, inert⟩ := spells.exists_inert
  intro before? _
  have shape : .leftBracket :: (inner ++ [.rightBracket]) ++ rest =
      .leftBracket :: (inner ++ .rightBracket :: rest) := by simp
  refine ⟨some .rightBracket, free_of_ne nofun nofun, ?_⟩
  rw [shape, weighed_cons rfl]
  exact congrArg _ (weighed_bracketed inert)

/-- A name behind a dot or a colon counts nothing more than these. -/
theorem marked (mark : token = .delim '.' ∨ token = .colon)
    (weight : ∀ before?, Free before? →
      Occurrence.weight ⟨before?, token, some (.ident name), false⟩ = s) :
    Weighs [token, .ident name] rest s := by
  intro before? free
  have keeps : takesArguments token = false ∧ staysBracketed false token = false := by
    rcases mark with rfl | rfl <;> exact ⟨rfl, rfl⟩
  have notType : Occurrence.isTypeName ⟨some token, .ident name, rest.head?, false⟩ = false := by
    rcases mark with rfl | rfl <;> simp [Occurrence.isTypeName]
  refine ⟨some (.ident name), free_of_ne nofun nofun, ?_⟩
  rw [List.cons_append, List.singleton_append, weighed_cons keeps.1, keeps.2, List.head?_cons,
    weight before? free, weighed_cons rfl, weight_ident notType]
  exact congrArg _ (Specificity.zero_add _)

/-- A pseudo-class without arguments. -/
theorem pseudoClass (isClass : name.toLower ∉ singleColonNames) :
    Weighs [.colon, .ident name] rest ⟨0, 1, 0⟩ := by
  refine .marked (.inr rfl) fun before? free => ?_
  have starts :
      Occurrence.startsPseudoClass ⟨before?, .colon, some (.ident name), false⟩ = true := by
    simp [Occurrence.startsPseudoClass, bne_iff_ne.2 free.2, isClass]
  exact weight_colon starts

/-- A functional pseudo-class counts once, whatever its arguments are. -/
theorem functional {args : List Token} (isOther : name.toLower ≠ "not") (balanced : Balanced args) :
    Weighs (.colon :: .function name :: (args ++ [.rightParen])) rest ⟨0, 1, 0⟩ := by
  intro before? free
  refine ⟨some .rightParen, free_of_ne nofun nofun, ?_⟩
  have takes : takesArguments (.function name) = true := bne_iff_ne.2 isOther
  have starts :
      Occurrence.startsPseudoClass ⟨before?, .colon, some (.function name), false⟩ = true := by
    simp [Occurrence.startsPseudoClass, bne_iff_ne.2 free.2, bne_iff_ne.2 isOther]
  rw [List.cons_append, List.cons_append, List.append_assoc, List.singleton_append,
    weighed_cons rfl, List.head?_cons, weight_colon starts]
  exact congrArg _ (weighed_call takes balanced)

/-- A negation counts what is in it. -/
theorem negation {front back : List Token} (isNot : name.toLower = "not")
    (frontBlanks : Blanks front) (inner : Weighs tokens (back ++ [.rightParen] ++ rest) s)
    (backBlanks : Blanks back) :
    Weighs (.colon :: .function name :: (front ++ (tokens ++ (back ++ [.rightParen])))) rest s := by
  have closing : Weighs (back ++ [.rightParen]) rest .zero :=
    of_zero (.blanks backBlanks) (.quiet (List.forall_mem_singleton.2 rfl))
  intro before? free
  have keeps : takesArguments (.function name) = false := by
    simp [takesArguments, isNot]
  have starts :
      Occurrence.startsPseudoClass ⟨before?, .colon, some (.function name), false⟩ = false := by
    simp [Occurrence.startsPseudoClass, isNot]
  have inside : Weighs (front ++ (tokens ++ (back ++ [.rightParen]))) rest s :=
    of_zero (.blanks frontBlanks) (inner.then_zero closing)
  obtain ⟨after?, free', counts⟩ := inside (some (.function name)) (free_of_ne nofun nofun)
  refine ⟨after?, free', ?_⟩
  rw [← counts, List.cons_append, List.cons_append, weighed_cons rfl, List.head?_cons,
    weight_colon starts, weighed_cons keeps]
  exact (Specificity.zero_add _).trans (Specificity.zero_add _)

end Weighs

mutual

theorem Grammar.SpellsSimple.weighs : ∀ {tokens rest : List Token} {simple : Simple},
    SpellsSimple table tokens simple → Weighs tokens rest simple.specificity
  | _, _, _, .id _ => .one rfl rfl (free_of_ne nofun nofun) fun _ _ => rfl
  | _, _, _, .className _ => .marked (.inl rfl) fun _ _ => rfl
  | _, _, _, .hasAttribute selector => .attributeSelector selector
  | _, _, _, .pseudoClass isClass => .pseudoClass isClass
  | _, _, _, .functional isOther balanced => .functional isOther balanced
  | _, rest, _, .negation isNot front inner _ back => by
    refine .negation isNot front (inner.weighs ?_) back
    rw [List.append_assoc]
    exact (Follows.blanks (follows_cons rfl) back).1

theorem Grammar.SpellsMembers.weighs : ∀ {tokens rest : List Token} {members : Compound},
    SpellsMembers table tokens members → Weighs tokens rest (Simple.specificitySum members)
  | _, _, _, .nil => .nil
  | _, _, _, .cons first more => first.weighs.append more.weighs

theorem Grammar.SpellsPlain.weighs : ∀ {tokens rest : List Token} {compound : Compound},
    SpellsPlain table tokens compound → NoType rest →
      Weighs tokens rest (Simple.specificitySum compound)
  | _, _, _, .mk types members, noType => by
    rw [Simple.specificitySum_append]
    exact (Weighs.typeSelector types (members.noType noType)).append members.weighs

end

/-- A pseudo-element is not counted with the tokens. -/
theorem Grammar.SpellsEnding.weighs {pseudoElement? : Option String}
    (spells : SpellsEnding tokens pseudoElement?) : Weighs tokens rest .zero := by
  cases spells with
  | missing => exact .nil
  | doubled name =>
    -- Behind the first colon nothing is free, so the two colons cannot be weighed apart.
    intro before? _
    have first : Occurrence.startsPseudoClass ⟨before?, .colon, some .colon, false⟩ = false := by
      simp [Occurrence.startsPseudoClass]
    refine ⟨some (.ident name), free_of_ne nofun nofun, ?_⟩
    rw [List.cons_append, List.cons_append, List.singleton_append, weighed_cons rfl,
      weighed_cons rfl, weighed_cons rfl, List.head?_cons, weight_colon first]
    exact congrArg _ ((Specificity.zero_add _).trans (Specificity.zero_add _))
  | @single name isElement =>
    refine .marked (.inr rfl) fun before? _ => ?_
    have notClass :
        Occurrence.startsPseudoClass ⟨before?, .colon, some (.ident name), false⟩ = false := by
      simp [Occurrence.startsPseudoClass, isElement]
    exact weight_colon notClass

theorem Grammar.SpellsCompound.weighs {compound : Compound} {pseudoElement? : Option String}
    (spells : SpellsCompound table tokens compound pseudoElement?) (noType : NoType rest) :
    Weighs tokens rest (Simple.specificitySum compound) := by
  cases spells with
  | mk plain ending _ => exact (plain.weighs (ending.noType noType)).then_zero ending.weighs

theorem Grammar.SpellsCombinator.weighs {k : Combinator} (spells : SpellsCombinator tokens k) :
    Weighs tokens rest .zero := by
  cases spells with
  | descendant blanks _ => exact .blanks blanks
  | @symbol _ _ c _ symbol front back =>
    have quiet : isQuiet (.delim c) = true := by
      cases symbol <;> rfl
    exact .of_zero (.blanks front)
      (.of_zero (.quiet (List.forall_mem_singleton.2 quiet)) (.blanks back))

theorem Grammar.SpellsChain.weighs {chain : Chain} {pseudoElement? : Option String}
    (spells : SpellsChain table tokens chain pseudoElement?) (noType : NoType rest) :
    Weighs tokens rest chain.specificity := by
  induction spells generalizing rest with
  | single compound => exact compound.weighs noType
  | joined _ sign compound ih =>
    refine (ih ?_).append (.of_zero sign.weighs (compound.weighs noType))
    rw [List.append_assoc]
    exact sign.follows.1

theorem Grammar.SpellsSelector.weighs {selector : Selector}
    (spells : SpellsSelector table tokens selector) :
    selector.specificity = .counted (occurrences none false (written 0 tokens)) +
      if selector.pseudoElement?.isSome then ⟨0, 0, 1⟩ else .zero := by
  cases spells with
  | @mk front inner back chain pseudoElement? frontBlanks chainSpells backBlanks =>
    have nothing : Follows [] := by
      constructor <;> exact fun t => (absurd · (Option.not_mem_none t))
    have noType : NoType (back ++ []) := (nothing.blanks backBlanks).1
    have whole : Weighs (front ++ (inner ++ back)) [] chain.specificity :=
      .of_zero (.blanks frontBlanks) ((chainSpells.weighs noType).then_zero (.blanks backBlanks))
    obtain ⟨after?, -, counts⟩ := whole none ⟨nofun, nofun⟩
    rw [List.append_nil, weighed_nil, Specificity.add_zero] at counts
    rw [← Selector.ofChain_eq]
    exact congrArg (· + _) counts.symm

end Weighing

/-! ## Selectors of a text -/

/-- **Specificity counts every written simple selector once.** Each selector of a text that was read
has the specificity counted over the tokens of its piece: the hashes, then the dots, brackets and
pseudo-classes, then the type names and the pseudo-element. Stars, namespaces, combinators and
negations themselves count nothing. -/
theorem specificity_of_parse {text : String} {table : Namespaces} {selectors : List Selector}
    (parsed : parse text table = .ok selectors) :
    List.Forall₂ (fun piece selector =>
        let os := occurrences none false (written 0 piece)
        selector.specificity =
          ⟨os.countP (·.isHash),
            os.countP (·.isDot) + os.countP (·.opensBracket) + os.countP (·.startsPseudoClass),
            os.countP (·.isTypeName) + selector.pseudoElement?.toList.length⟩)
      (pieces 0 (tokenize text)) selectors := by
  refine (spellsList_of_parse parsed).forall₂_pieces.imp fun piece selector spelled => ?_
  refine spelled.weighs.trans ?_
  cases selector.pseudoElement? <;> rfl

/-- The first selector counts one hash, also a dot, a bracket and two pseudo-classes other than the
negation, and two type names and a pseudo-element. Neither `ns`, `p`, `q` and `r` nor the languages
are among these. -/
theorem specificity_of_parse_nested_negation :
    let text := "ns|a.x:NOT( b#c:lang(en, fr) ):nth-child(2n+1)[p|q=r] > *::before , d"
    let table : Namespaces := ⟨some "urn:0", [("ns", "urn:1"), ("p", "urn:2")]⟩
    ∃ selectors, parse text table = .ok selectors ∧
      selectors.map (·.specificity) = [⟨1, 4, 3⟩, ⟨0, 0, 1⟩] ∧
      List.Forall₂ (fun piece selector =>
          let os := occurrences none false (written 0 piece)
          selector.specificity =
            ⟨os.countP (·.isHash),
              os.countP (·.isDot) + os.countP (·.opensBracket) + os.countP (·.startsPseudoClass),
              os.countP (·.isTypeName) + selector.pseudoElement?.toList.length⟩)
        (pieces 0 (tokenize text)) selectors := by
  intro text table
  have counted : (parse text table).map (·.map (·.specificity)) = .ok [⟨1, 4, 3⟩, ⟨0, 0, 1⟩] := by
    decide +kernel
  obtain ⟨selectors, parsed, counts⟩ := map_eq_ok_iff.1 counted
  exact ⟨selectors, parsed, counts, specificity_of_parse parsed⟩

end Selectors
