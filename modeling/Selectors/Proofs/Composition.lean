import Selectors.Compiled
import Selectors.Proofs.Borders
import Selectors.Proofs.Parsing

/-!
Selector lists compose. Two texts that can be read alone can be read with a comma between them, and
the selectors of both are those of the one followed by those of the other. The first text only must
not end inside a comment or right behind a backslash, where the comma would be part of it.

The tokens compose, for a comma is a border. The trees do, for nothing of one selector is left when
the next one is read: the grammar has no state. A text that ends inside a string is no list of
selectors at all (`SpellsList.noLastString`).

The slash that opens a comment is a border as well. With an empty comment between them any two texts
keep their tokens (`tokenize_around_comment`).
-/

namespace Selectors

open Grammar

/-! ## Tokens -/

/-- Where the end of a text is met. -/
def placeAtEnd (text : String) : Lexer.Place :=
  Lexer.Place.plain.atEnd (Lexer.normalize text.toList)

theorem scan_comma (cs : List Char) : Lexer.scan (',' :: cs) = .comma :: Lexer.scan cs := by
  have skipped : Lexer.skipComments (',' :: cs) = ',' :: cs :=
    Lexer.skipComments_eq_self fun slash => absurd slash (by decide)
  exact Lexer.scan_cons skipped

/-- A comma cuts the tokens of a text that ends outside of everything. -/
theorem tokenize_comma {s : String} (outside : placeAtEnd s = .plain) (t : String) :
    tokenize (s ++ "," ++ t) = (tokenize s).dropLast ++ .comma :: tokenize t := by
  have characters : (s ++ "," ++ t).toList = s.toList ++ ',' :: t.toList := by
    rw [String.toList_append, String.toList_append, List.append_assoc]
    rfl
  unfold tokenize
  rw [characters, Lexer.normalize_border Lexer.border_comma,
    Lexer.scan_border Lexer.border_comma outside, scan_comma]

/-! ## Comments -/

namespace Lexer

theorem border_slash : Border '/' := by
  constructor <;> decide

/-- A comment with nothing in it leaves nothing behind. -/
theorem scan_comment (cs : List Char) : scan ('/' :: '*' :: '*' :: '/' :: cs) = scan cs :=
  scan_congr skipComments_open

end Lexer

/-- **A comment splits tokens and changes none of them.** If a text does not end inside a comment or
a string or right behind a backslash, then with a comment behind it its tokens are followed by those
of any other text. Only the end of the text is no longer among them. -/
theorem tokenize_around_comment {s : String} (noComment : placeAtEnd s ≠ .comment)
    (noString : ∀ quote, placeAtEnd s ≠ .string quote) (noEscape : placeAtEnd s ≠ .escape) :
    ∃ body, tokenize s = body ++ [.eof] ∧ .eof ∉ body ∧
      ∀ t, tokenize (s ++ "/**/" ++ t) = body ++ tokenize t := by
  have outside : placeAtEnd s = .plain := by
    cases place : placeAtEnd s with
    | plain => rfl
    | comment => exact absurd place noComment
    | string quote => exact absurd place (noString quote)
    | escape => exact absurd place noEscape
  obtain ⟨body, tokens, inside⟩ := ended_tokenize s
  refine ⟨body, tokens, inside, fun t => ?_⟩
  have characters : (s ++ "/**/" ++ t).toList =
      s.toList ++ '/' :: ('*' :: '*' :: '/' :: t.toList) := by
    rw [String.toList_append, String.toList_append, List.append_assoc]
    rfl
  have uniform : Lexer.normalize ('*' :: '*' :: '/' :: t.toList) =
      '*' :: '*' :: '/' :: Lexer.normalize t.toList := rfl
  have inFront : Lexer.scan (Lexer.normalize s.toList) = body ++ [.eof] := tokens
  rw [tokenize, characters, Lexer.normalize_border Lexer.border_slash, uniform,
    Lexer.scan_border Lexer.border_slash outside, Lexer.scan_comment, inFront, List.dropLast_concat]
  rfl

/-- Without the comment the blank would end the escape and the digit would be part of the name. -/
theorem tokenize_around_comment_behind_escape :
    placeAtEnd "a\\31" ≠ .comment ∧ (∀ quote, placeAtEnd "a\\31" ≠ .string quote) ∧
      placeAtEnd "a\\31" ≠ .escape ∧
      tokenize ("a\\31" ++ "/**/" ++ " 2") = [.ident "a1", .blank] ++ tokenize "2" ∧
      tokenize ("a\\31" ++ " 2") = [.ident "a12", .eof] := by
  have outside : placeAtEnd "a\\31" = .plain := by decide +kernel
  have noComment : placeAtEnd "a\\31" ≠ .comment := by rw [outside]; decide
  have noString (quote : Char) : placeAtEnd "a\\31" ≠ .string quote := by rw [outside]; nofun
  have noEscape : placeAtEnd "a\\31" ≠ .escape := by rw [outside]; decide
  have tokens : tokenize "a\\31" = [.ident "a1", .eof] := by decide +kernel
  have tokensBehind : tokenize " 2" = .blank :: tokenize "2" := by decide +kernel
  obtain ⟨body, same, -, around⟩ := tokenize_around_comment noComment noString noEscape
  obtain rfl : body = [.ident "a1"] :=
    (List.append_left_inj [Token.eof]).1 (same.symm.trans tokens)
  refine ⟨noComment, noString, noEscape, ?_, by decide +kernel⟩
  rw [around, tokensBehind]
  rfl

/-! ## Trees -/

namespace Grammar

variable {table : Namespaces} {tokens front back rest : List Token}

/-- No string stands at the end. -/
def NoLastString (tokens : List Token) : Prop := ∀ value, tokens.getLast? ≠ some (.string value)

theorem NoLastString.append (inFront : NoLastString front) (behind : NoLastString back) :
    NoLastString (front ++ back) := by
  intro value last
  rw [List.getLast?_append, Option.or_eq_some_iff] at last
  rcases last with last | ⟨-, last⟩
  · exact behind value last
  · exact inFront value last

theorem Blanks.noLastString (blanks : Blanks tokens) : NoLastString tokens := by
  intro value last
  cases blanks _ (List.mem_of_getLast? last)

theorem SpellsName.noLastString {star : Bool} {name : Reading.QualifiedName}
    (spells : SpellsName table star tokens name) : NoLastString tokens := by
  have part {token : Token} {name? : Option String} (spells : SpellsLocal star token name?)
      (value : String) : token ≠ .string value := by
    cases spells <;> nofun
  cases spells with
  | declared _ last | anyNamespace last | noNamespace last | bare last =>
    exact fun value same => part last value (Option.some.inj same)

theorem SpellsType.noLastString {types : Compound} (spells : SpellsType table tokens types) :
    NoLastString tokens := by
  rcases spells.eq_nil_or_name with ⟨rfl, -⟩ | ⟨name, named, -⟩
  · nofun
  · exact named.noLastString

theorem SpellsAttribute.noLastString {selector : AttributeSelector}
    (spells : SpellsAttribute table tokens selector) : NoLastString tokens := by
  intro value
  cases spells with
  | mk _ _ _ comparison => cases comparison <;> simp [List.getLast?_cons]

theorem SpellsSimple.noLastString {simple : Simple} (spells : SpellsSimple table tokens simple) :
    NoLastString tokens := by
  cases spells with
  | id | className | pseudoClass => nofun
  | hasAttribute selector => exact selector.noLastString
  | functional | negation => simp [NoLastString, List.getLast?_cons]

theorem SpellsMembers.noLastString {members : Compound} :
    ∀ {tokens : List Token}, SpellsMembers table tokens members → NoLastString tokens
  | _, .nil => nofun
  | _, .cons first rest => first.noLastString.append rest.noLastString

theorem SpellsCompound.noLastString {compound : Compound} {pseudoElement? : Option String}
    (spells : SpellsCompound table tokens compound pseudoElement?) : NoLastString tokens := by
  cases spells with
  | mk plain last _ =>
    cases plain with
    | mk types members =>
      refine (types.noLastString.append members.noLastString).append ?_
      cases last <;> nofun

theorem SpellsCombinator.noLastString {k : Combinator} (spells : SpellsCombinator tokens k) :
    NoLastString tokens := by
  cases spells with
  | descendant blanks _ => exact blanks.noLastString
  | @symbol _ _ c _ _ front back =>
    have sign : NoLastString [.delim c] := nofun
    exact front.noLastString.append (sign.append back.noLastString)

theorem SpellsChain.noLastString {chain : Chain} {pseudoElement? : Option String}
    (spells : SpellsChain table tokens chain pseudoElement?) : NoLastString tokens := by
  induction spells with
  | single compound => exact compound.noLastString
  | joined _ sign compound ih => exact ih.append (sign.noLastString.append compound.noLastString)

theorem SpellsSelector.noLastString {selector : Selector}
    (spells : SpellsSelector table tokens selector) : NoLastString tokens := by
  cases spells with
  | mk front chain back =>
    exact front.noLastString.append (chain.noLastString.append back.noLastString)

theorem SpellsList.ne_nil {selectors : List Selector} (spells : SpellsList table tokens selectors) :
    tokens ≠ [] := by
  cases spells with
  | last _ => exact List.append_ne_nil_of_right_ne_nil _ (List.cons_ne_nil _ _)
  | cons _ _ => exact List.append_ne_nil_of_right_ne_nil _ (List.cons_ne_nil _ _)

theorem SpellsList.dropLast_cons {selectors : List Selector}
    (spells : SpellsList table rest selectors) (front : List Token) :
    (front ++ .comma :: rest).dropLast = front ++ .comma :: rest.dropLast := by
  rw [List.dropLast_append_of_ne_nil (List.cons_ne_nil _ _),
    List.dropLast_cons_of_ne_nil spells.ne_nil]

/-- In front of the end of the text stands no string. -/
theorem SpellsList.noLastString {selectors : List Selector}
    (spells : SpellsList table tokens selectors) : NoLastString tokens.dropLast := by
  induction spells with
  | last selector =>
    rw [List.dropLast_concat]
    exact selector.noLastString
  | cons selector others ih =>
    have comma : NoLastString [.comma] := nofun
    rw [others.dropLast_cons]
    exact selector.noLastString.append (comma.append ih)

/-- Selectors can go on behind a comma in the place of the end of the text. -/
theorem SpellsList.append {selectors more : List Selector}
    (spells : SpellsList table tokens selectors) (others : SpellsList table rest more) :
    SpellsList table (tokens.dropLast ++ .comma :: rest) (selectors ++ more) := by
  induction spells with
  | last selector =>
    rw [List.dropLast_concat]
    exact .cons selector others
  | cons selector behind ih =>
    rw [behind.dropLast_cons, List.append_assoc]
    exact .cons selector ih

end Grammar

/-! ## Texts -/

section Texts

variable {s t : String} {table : Namespaces} {ss ts : List Selector}

/-- A text that can be read does not end inside a string. -/
theorem placeAtEnd_eq_plain (spells : SpellsList table (tokenize s) ss)
    (noComment : placeAtEnd s ≠ .comment) (noEscape : placeAtEnd s ≠ .escape) :
    placeAtEnd s = .plain := by
  cases place : placeAtEnd s with
  | plain => rfl
  | comment => exact absurd place noComment
  | escape => exact absurd place noEscape
  | string quote =>
    obtain ⟨front, value, tokens⟩ := Lexer.scan_eq_of_string place
    have last := spells.noLastString value
    rw [tokenize, tokens] at last
    simp at last

theorem compileAll_append : compileAll (ss ++ ts) =
    match compileAll ss with
    | .error e => .error e
    | .ok cs => (compileAll ts).map (cs ++ ·) := by
  induction ss with
  | nil => cases all : compileAll ts <;> simp [compileAll, Except.map, all]
  | cons s rest ih =>
    rw [List.cons_append, compileAll, compileAll]
    cases s.compile with
    | error e => rfl
    | ok c =>
      dsimp only
      rw [ih]
      cases compileAll rest with
      | error e => rfl
      | ok cs => cases compileAll ts <;> rfl

/-- **Selector lists compose.** Two texts that can be read, with a comma between them, spell the
selectors of both, unless the comma falls into a comment or behind a backslash at the end of the
first one. They compile to what both compile to, or the first fault of both is reported. -/
theorem parse_and_compileList_comma (parsed : parse s table = .ok ss)
    (parsedBehind : parse t table = .ok ts) (noComment : placeAtEnd s ≠ .comment)
    (noEscape : placeAtEnd s ≠ .escape) :
    parse (s ++ "," ++ t) table = .ok (ss ++ ts) ∧
      compileList (s ++ "," ++ t) table =
        match compileList s table, compileList t table with
        | .error e, _ => .error e
        | .ok _, .error e => .error e
        | .ok cs, .ok ds => .ok (cs ++ ds) := by
  have spells := spellsList_of_parse parsed
  have both := spells.append (spellsList_of_parse parsedBehind)
  rw [← tokenize_comma (placeAtEnd_eq_plain spells noComment noEscape)] at both
  have parsedBoth : parse (s ++ "," ++ t) table = .ok (ss ++ ts) := both.parse_eq
  refine ⟨parsedBoth, ?_⟩
  rw [compileList, compileList, compileList, parsedBoth, parsed, parsedBehind]
  dsimp only
  rw [compileAll_append]
  cases compileAll ss with
  | error e => rfl
  | ok cs => cases compileAll ts <;> rfl

/-- A name and behind it a comment that has a comma in it. -/
theorem parse_and_compileList_commented :
    let a := Selector.ofChain (.single [.typeName "a"]) none
    let b := Selector.ofChain (.single [.typeName "b"]) none
    parse "a/*,*/" {} = .ok [a] ∧ parse "b" {} = .ok [b] ∧
      placeAtEnd "a/*,*/" ≠ .comment ∧ placeAtEnd "a/*,*/" ≠ .escape ∧
      parse ("a/*,*/" ++ "," ++ "b") {} = .ok [a, b] ∧
      ∃ ca cb, compileList ("a/*,*/" ++ "," ++ "b") {} = .ok [ca, cb] := by
  intro a b
  have spells (name : String) :
      SpellsList {} [.ident name, .eof] [.ofChain (.single [.typeName name]) none] := by
    have named : SpellsType {} [.ident name] [.typeName name] := .named (.bare (.name name))
    have plain : SpellsPlain {} [.ident name] [.typeName name] := .mk named .nil
    have compound : SpellsCompound {} [.ident name] [.typeName name] none :=
      .mk plain .missing (List.cons_ne_nil _ _)
    exact .last (.of_chain (List.forall_mem_nil _) (.single compound) (List.forall_mem_nil _))
  let comment : List Char := ['/', '*', ',', '*', '/']
  have uniform : Lexer.normalize "a/*,*/".toList = 'a' :: comment := by decide
  have tokens : tokenize "a/*,*/" = [.ident "a", .eof] := by
    have alone : Lexer.name comment = ([], comment) := Lexer.name_stop (by decide) (by decide)
    have skipped : Lexer.skipComments comment = [] :=
      Lexer.skipComments_open.trans Lexer.skipComments_nil
    rw [tokenize, uniform, Lexer.scan_letter rfl (by decide) alone (by decide),
      Lexer.scan_nil skipped]
  have tokensBehind : tokenize "b" = [.ident "b", .eof] := by
    have uniform : Lexer.normalize "b".toList = ['b'] := by decide
    have alone : Lexer.name [] = ([], []) := by rw [Lexer.name]
    rw [tokenize, uniform, Lexer.scan_letter rfl (by decide) alone (by decide),
      Lexer.scan_nil Lexer.skipComments_nil]
  have place : placeAtEnd "a/*,*/" = .plain := by
    rw [placeAtEnd, uniform, Lexer.atEnd_ordinary (by decide), Lexer.atEnd_comment_open,
      Lexer.atEnd_comment (by decide), Lexer.atEnd_comment_close, Lexer.atEnd_nil]
  have parsed : parse "a/*,*/" {} = .ok [a] := by
    apply SpellsList.parse_eq
    rw [tokens]
    exact spells "a"
  have parsedBehind : parse "b" {} = .ok [b] := by
    apply SpellsList.parse_eq
    rw [tokensBehind]
    exact spells "b"
  have noComment : placeAtEnd "a/*,*/" ≠ .comment := by
    rw [place]
    decide
  have noEscape : placeAtEnd "a/*,*/" ≠ .escape := by
    rw [place]
    decide
  obtain ⟨both, compiled⟩ := parse_and_compileList_comma parsed parsedBehind noComment noEscape
  have compiles {text name : String}
      (parsed : parse text {} = .ok [.ofChain (.single [.typeName name]) none]) :
      ∃ c, compileList text {} = .ok [c] := by
    rw [compileList, parsed]
    exact ⟨_, rfl⟩
  obtain ⟨ca, compiledAlone⟩ := compiles parsed
  obtain ⟨cb, compiledBehind⟩ := compiles parsedBehind
  rw [compiledAlone, compiledBehind] at compiled
  exact ⟨parsed, parsedBehind, noComment, noEscape, both, ca, cb, compiled⟩

end Texts

end Selectors
