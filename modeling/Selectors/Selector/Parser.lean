import Selectors.Namespaces
import Selectors.Selector
import Selectors.SyntaxError
import Selectors.Token.Lexer

/-!
Reading selectors from tokens.

Each reader takes the tokens that are left and gives a value with the tokens it leaves
(`Parsed`), or the fault it met with the tokens that were not read by then (`Failure`). A result
carries the proof that no tokens were gained, which is what lets the readers recur through
negations of any depth.

A compound is read member by member (`step`), a chain compound by compound (`chainFrom`), a list
selector by selector (`selectorList`). `parse` reads a whole text.
-/

namespace Selectors

namespace Reading

/-! ## Results -/

/-- A value read from the start of some tokens, and the tokens left. -/
structure Parsed (α : Type) (tokens : List Token) : Type where
  value : α
  rest : List Token
  rest_le : rest.length ≤ tokens.length

/-- A fault, and the tokens that had not been read when it was noticed. -/
structure Failure : Type where
  fault : SyntaxFault
  rest : List Token

namespace Parsed

variable {α β : Type} {tokens tokens' : List Token}

/-- The same result seen from a longer list of tokens. -/
def within (p : Parsed α tokens) (h : tokens.length ≤ tokens'.length) : Parsed α tokens' :=
  ⟨p.value, p.rest, Nat.le_trans p.rest_le h⟩

/-- The same tokens left, with another value. -/
def map (f : α → β) (p : Parsed α tokens) : Parsed β tokens := ⟨f p.value, p.rest, p.rest_le⟩

/-- The blanks after a value skipped. -/
def skipBlanks (p : Parsed α tokens) : Parsed α tokens :=
  ⟨p.value, Selectors.skipBlanks p.rest, Nat.le_trans (length_skipBlanks_le _) p.rest_le⟩

end Parsed

/-- The first token that is left; past the last one there is only the end of the text. -/
def next (tokens : List Token) : Token := tokens.headD .eof

/-! ## Names -/

/-- Whether a token can stand for the local part of a name. In a type selector a star can. -/
def isLocalPart (star : Bool) : Token → Bool
  | .ident _ => true
  | .delim '*' => star
  | _ => false

/-- The local name that a token stands for; nothing for a star. -/
def localName? : Token → Option String
  | .ident name => some name
  | _ => none

/-- A namespace separator and the local part after it, with nothing between the two. -/
def afterSeparator (star : Bool) : (tokens : List Token) → Option (Parsed Token tokens)
  | .delim '|' :: token :: rest =>
    if isLocalPart star token then
      some ⟨token, rest, by simp only [List.length_cons]; omega⟩
    else none
  | _ => none

/-- A name with its namespace resolved: nothing for any namespace, nothing for any name. -/
structure QualifiedName : Type where
  namespaceUrl? : Option String
  name? : Option String
deriving DecidableEq

/-- Reads a name with or without a namespace. `star` says that the name is a type selector, so that
a star may stand for the local name and the unprefixed namespace applies; attributes without a
namespace separator are in no namespace. An identifier with a separator and a local part after it
is always a namespace name, which has to be declared. -/
def qualifiedName (table : Namespaces) (star : Bool) (tokens : List Token) :
    Except Failure (Option (Parsed QualifiedName tokens)) :=
  match tokens with
  | .ident lead :: rest =>
    match afterSeparator star rest with
    | some part =>
      match table.resolve? lead with
      | some url =>
        .ok (some ((part.map fun token => ⟨some url, localName? token⟩).within (by simp)))
      | none => .error ⟨.undeclaredNamespace lead, rest.tail⟩
    | none =>
      .ok (some ⟨⟨if star then table.unprefixed? else some "", some lead⟩, rest, by simp⟩)
  | .delim '*' :: rest =>
    match afterSeparator star rest with
    | some part => .ok (some ((part.map fun token => ⟨none, localName? token⟩).within (by simp)))
    | none =>
      if star then .ok (some ⟨⟨table.unprefixed?, none⟩, rest, by simp⟩) else .ok none
  | tokens =>
    .ok ((afterSeparator star tokens).map fun part =>
      part.map fun token => ⟨some "", localName? token⟩)

/-- The simple selectors that a name in a type selector stands for. -/
def QualifiedName.selectors (q : QualifiedName) : Compound :=
  (q.name?.map Simple.typeName).toList ++ (q.namespaceUrl?.map Simple.inNamespace).toList

/-- Reads a type selector, if there is one. -/
def typeSelector (table : Namespaces) (tokens : List Token) :
    Except Failure (Parsed Compound tokens) :=
  match qualifiedName table true tokens with
  | .error e => .error e
  | .ok none => .ok ⟨[], tokens, Nat.le_refl _⟩
  | .ok (some q) => .ok (q.map QualifiedName.selectors)

/-! ## Attribute selectors -/

/-- Reads an attribute operator. -/
def operator (tokens : List Token) : Except Failure (Parsed AttributeOperator tokens) :=
  match tokens with
  | .delim '=' :: rest => .ok ⟨.equals, rest, by simp⟩
  | .delim lead :: .delim '=' :: rest =>
    match AttributeOperator.ofLead? lead with
    | some o => .ok ⟨o, rest, by simp only [List.length_cons]; omega⟩
    | none => .error ⟨.unknownOperator lead, tokens⟩
  | tokens => .error ⟨.expectedOperator (next tokens), tokens⟩

/-- Reads what an attribute is compared with. -/
def operand (tokens : List Token) : Except Failure (Parsed String tokens) :=
  match tokens with
  | .ident value :: rest => .ok ⟨value, rest, by simp⟩
  | .string value :: rest => .ok ⟨value, rest, by simp⟩
  | tokens => .error ⟨.expectedAttributeValue (next tokens), tokens.tail⟩

/-- Reads the bracket that closes an attribute selector. -/
def closingBracket (tokens : List Token) : Except Failure (Parsed Unit tokens) :=
  match tokens with
  | .rightBracket :: rest => .ok ⟨(), rest, by simp⟩
  | .ident flag :: rest => .error ⟨.unsupportedFlag flag, rest⟩
  | tokens => .error ⟨.expectedBracket (next tokens), tokens.tail⟩

/-- Reads the operator and the operand of an attribute selector and its closing bracket. -/
def comparison (tokens : List Token) :
    Except Failure (Parsed (AttributeOperator × String) tokens) :=
  match operator tokens with
  | .error e => .error e
  | .ok o =>
    match operand (skipBlanks o.rest) with
    | .error e => .error e
    | .ok v =>
      match closingBracket (skipBlanks v.rest) with
      | .error e => .error e
      | .ok close =>
        .ok ⟨(o.value, v.value), close.rest,
          Nat.le_trans close.rest_le <| Nat.le_trans (length_skipBlanks_le _) <|
            Nat.le_trans v.rest_le <| Nat.le_trans (length_skipBlanks_le _) o.rest_le⟩

/-- Reads an attribute selector after its opening bracket. -/
def attributeSelector (table : Namespaces) (tokens : List Token) :
    Except Failure (Parsed AttributeSelector tokens) :=
  match qualifiedName table false (skipBlanks tokens) with
  | .error e => .error e
  | .ok (some ⟨⟨namespaceUrl?, some name⟩, rest, rest_le⟩) =>
    have le : (skipBlanks rest).length ≤ tokens.length :=
      Nat.le_trans (length_skipBlanks_le _) (Nat.le_trans rest_le (length_skipBlanks_le _))
    match h : skipBlanks rest with
    | .rightBracket :: close =>
      .ok ⟨⟨namespaceUrl?, name, none, ""⟩, close, by
        rw [h, List.length_cons] at le
        exact Nat.le_of_succ_le le⟩
    | stop =>
      match comparison stop with
      | .error e => .error e
      | .ok c =>
        .ok ((c.map fun (o, v) => ⟨namespaceUrl?, name, some o, v⟩).within (h ▸ le))
  | .ok _ => .error ⟨.expectedAttributeName (next (skipBlanks tokens)), skipBlanks tokens⟩

/-! ## Arguments -/

/-- Puts a token in front of the arguments that follow it. -/
def keep (token : Token) {rest : List Token} :
    Except Failure (Parsed (List Token) rest) →
      Except Failure (Parsed (List Token) (token :: rest))
  | .ok p => .ok ((p.map (token :: ·)).within (by simp))
  | .error e => .error e

/-- Reads tokens up to the parenthesis that closes them, which is read too but is not one of them.
`depth` counts the parentheses opened among them. -/
def arguments (depth : Nat) : (tokens : List Token) → Except Failure (Parsed (List Token) tokens)
  | [] => .error ⟨.unclosedArguments, []⟩
  | .eof :: rest => .error ⟨.unclosedArguments, rest⟩
  | .rightParen :: rest =>
    match depth with
    | 0 => .ok ⟨[], rest, by simp⟩
    | depth + 1 => keep .rightParen (arguments depth rest)
  | .leftParen :: rest => keep .leftParen (arguments (depth + 1) rest)
  | .function name :: rest => keep (.function name) (arguments (depth + 1) rest)
  | token :: rest => keep token (arguments depth rest)

/-! ## Compounds -/

/-- The pseudo-elements that may be written with a single colon. -/
def singleColonPseudoElements : List String := ["before", "after", "first-line", "first-letter"]

/-- What comes next in a compound after its type selector. -/
inductive Step (tokens : List Token) : Type where
  /-- A simple selector, whole. -/
  | member (simple : Simple) (rest : List Token) (lt : rest.length < tokens.length)
  /-- The start of a negation; its compound follows. -/
  | negation (rest : List Token) (lt : rest.length < tokens.length)
  /-- A pseudo-element. Nothing may follow it in the compound. -/
  | pseudoElement (name : String) (rest : List Token) (le : rest.length ≤ tokens.length)
  /-- Nothing that belongs to the compound. -/
  | stop

/-- Reads the next member of a compound, of a negation only its start. -/
def step (table : Namespaces) (tokens : List Token) : Except Failure (Step tokens) :=
  match tokens with
  | .hash value .id :: rest => .ok (.member (.id value) rest (by simp))
  | .hash value .unrestricted :: rest =>
    .error ⟨.invalidId value, .hash value .unrestricted :: rest⟩
  | .delim '.' :: .ident name :: rest =>
    .ok (.member (.className name) rest (by simp only [List.length_cons]; omega))
  | .delim '.' :: rest => .error ⟨.expectedClassName (next rest), rest.tail⟩
  | .leftBracket :: rest =>
    match attributeSelector table rest with
    | .error e => .error e
    | .ok a => .ok (.member (.hasAttribute a.value) a.rest (Nat.lt_succ_of_le a.rest_le))
  | .colon :: .colon :: .ident name :: rest =>
    .ok (.pseudoElement name.toLower rest (by simp only [List.length_cons]; omega))
  | .colon :: .colon :: rest => .error ⟨.expectedPseudoElementName (next rest), rest.tail⟩
  | .colon :: .ident name :: rest =>
    if singleColonPseudoElements.contains name.toLower then
      .ok (.pseudoElement name.toLower rest (by simp only [List.length_cons]; omega))
    else
      .ok (.member (.pseudoClass name.toLower) rest (by simp only [List.length_cons]; omega))
  | .colon :: .function name :: rest =>
    if name.toLower = "not" then
      .ok (.negation rest (by simp only [List.length_cons]; omega))
    else
      match arguments 0 rest with
      | .error e => .error e
      | .ok a =>
        .ok (.member (.functional name.toLower a.value) a.rest (by
          have := a.rest_le
          simp only [List.length_cons]
          omega))
  | .colon :: rest => .error ⟨.expectedPseudoClassName (next rest), rest.tail⟩
  | _ => .ok .stop

/-- A compound as it was read, with the pseudo-element that ended it, if one did. -/
structure Part : Type where
  compound : Compound
  pseudoElement? : Option String

/-- The part with one more member in front. -/
def Part.cons (simple : Simple) (p : Part) : Part := ⟨simple :: p.compound, p.pseudoElement?⟩

/-- Reads the members of a compound after its type selector, up to the first token that does not
belong to it or to a pseudo-element. -/
def members (table : Namespaces) (tokens : List Token) :
    Except Failure (Parsed Part tokens) :=
  match step table tokens with
  | .error e => .error e
  | .ok .stop => .ok ⟨⟨[], none⟩, tokens, Nat.le_refl _⟩
  | .ok (.pseudoElement name rest le) => .ok ⟨⟨[], some name⟩, rest, le⟩
  | .ok (.member simple rest lt) =>
    match members table rest with
    | .error e => .error e
    | .ok p => .ok ((p.map (Part.cons simple)).within (Nat.le_of_lt lt))
  | .ok (.negation opened lt) =>
    match typeSelector table (skipBlanks opened) with
    | .error e => .error e
    | .ok types =>
      have typesLt : types.rest.length < tokens.length :=
        Nat.lt_of_le_of_lt (Nat.le_trans types.rest_le (length_skipBlanks_le _)) lt
      match members table types.rest with
      | .error e => .error e
      | .ok inner =>
        if inner.value.pseudoElement?.isSome then
          .error ⟨.pseudoElementInNegation, inner.rest⟩
        else if inner.rest.length = (skipBlanks opened).length then
          .error ⟨.expectedSelectorInNegation (next (skipBlanks opened)), skipBlanks opened⟩
        else
          match h : skipBlanks inner.rest with
          | .rightParen :: rest =>
            have restLt : rest.length < tokens.length := by
              have h1 := length_skipBlanks_le inner.rest
              have h2 := inner.rest_le
              rw [h, List.length_cons] at h1
              omega
            match members table rest with
            | .error e => .error e
            | .ok p =>
              .ok ((p.map (Part.cons (.negation (types.value ++ inner.value.compound)))).within
                (Nat.le_of_lt restLt))
          | stop => .error ⟨.expectedParenthesis (next stop), stop.tail⟩
termination_by tokens.length

/-- Reads a compound, which may turn out to have nothing in it. -/
def compound (table : Namespaces) (tokens : List Token) : Except Failure (Parsed Part tokens) :=
  match typeSelector table tokens with
  | .error e => .error e
  | .ok types =>
    (members table types.rest).map fun p =>
      (p.map fun part => ⟨types.value ++ part.compound, part.pseudoElement?⟩).within types.rest_le

/-! ## Chains and lists -/

/-- Reads a combinator with the blanks around it. Blanks alone are the descendant combinator, unless
the selector ends after them. -/
def combinator? (tokens : List Token) : Option (Parsed Combinator tokens) :=
  have le := length_skipBlanks_le tokens
  match h : skipBlanks tokens with
  | .delim '>' :: rest =>
    some (Parsed.skipBlanks ⟨.child, rest, by rw [h, List.length_cons] at le; omega⟩)
  | .delim '+' :: rest =>
    some (Parsed.skipBlanks ⟨.nextSibling, rest, by rw [h, List.length_cons] at le; omega⟩)
  | .delim '~' :: rest =>
    some (Parsed.skipBlanks ⟨.subsequentSibling, rest, by rw [h, List.length_cons] at le; omega⟩)
  | .comma :: _ => none
  | .eof :: _ => none
  | [] => none
  | rest => if rest.length = tokens.length then none else some ⟨.descendant, rest, h ▸ le⟩

/-- Reads what follows the compounds in `left`: combinators, each with a compound after it. A
pseudo-element ends the chain. The blanks after the chain are skipped. -/
def chainFrom (table : Namespaces) (left : Chain) (tokens : List Token) :
    Except Failure (Parsed (Chain × Option String) tokens) :=
  match combinator? tokens with
  | none => .ok ⟨(left, none), skipBlanks tokens, length_skipBlanks_le _⟩
  | some k =>
    match compound table k.rest with
    | .error e => .error e
    | .ok part =>
      if h : part.rest.length = k.rest.length then
        .error ⟨.expectedSelectorAfterCombinator (next k.rest), k.rest⟩
      else
        have lt : part.rest.length < tokens.length :=
          Nat.lt_of_lt_of_le (Nat.lt_of_le_of_ne part.rest_le h) k.rest_le
        let chain := Chain.joined left k.value part.value.compound
        match part.value.pseudoElement? with
        | some name =>
          .ok (Parsed.skipBlanks ⟨(chain, some name), part.rest, Nat.le_of_lt lt⟩)
        | none =>
          match chainFrom table chain part.rest with
          | .error e => .error e
          | .ok p => .ok (p.within (Nat.le_of_lt lt))
termination_by tokens.length

/-- Reads one selector with the blanks around it. -/
def selector (table : Namespaces) (tokens : List Token) :
    Except Failure (Parsed Selector tokens) :=
  match compound table (skipBlanks tokens) with
  | .error e => .error e
  | .ok part =>
    have le := Nat.le_trans part.rest_le (length_skipBlanks_le tokens)
    if part.rest.length = (skipBlanks tokens).length then
      .error ⟨.expectedSelector (next (skipBlanks tokens)), skipBlanks tokens⟩
    else
      match part.value.pseudoElement? with
      | some name =>
        .ok (Parsed.skipBlanks
          ⟨.ofChain (.single part.value.compound) (some name), part.rest, le⟩)
      | none =>
        (chainFrom table (.single part.value.compound) part.rest).map fun p =>
          (p.map fun (chain, pseudoElement?) => .ofChain chain pseudoElement?).within le

/-- Reads selectors with commas between them, up to the end of the text. -/
def selectorList (table : Namespaces) (tokens : List Token) :
    Except Failure (List Selector) :=
  match selector table tokens with
  | .error e => .error e
  | .ok s =>
    match h : s.rest with
    | .comma :: rest =>
      have : rest.length < tokens.length := by
        have := s.rest_le
        rw [h, List.length_cons] at this
        omega
      (selectorList table rest).map (s.value :: ·)
    | .eof :: _ => .ok [s.value]
    | [] => .ok [s.value]
    | token :: rest => .error ⟨.unexpected token, token :: rest⟩
termination_by tokens.length

end Reading

/-- Reads selector text under a table of namespaces. A fault is reported with the number of tokens
that were read when it was noticed. -/
def parse (text : String) (table : Namespaces) : Except SyntaxError (List Selector) :=
  let tokens := tokenize text
  match Reading.selectorList table tokens with
  | .ok selectors => .ok selectors
  | .error e => .error ⟨e.fault, tokens.length - e.rest.length⟩

end Selectors
