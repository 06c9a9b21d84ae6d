import Selectors.Proofs.Attributes
import Selectors.Proofs.Composition
import Selectors.Proofs.Digits

/-!
Names written with escapes alone. `escaped` writes each character of a text as a backslash, its code
in hexadecimal digits and a blank. Nothing in the result means anything else to the lexer, so every
text without the null character can be written as a name, as the text of a hash and as a string.

The blank behind the digits belongs to the escape (`escape_hexDigits`). That is why a character that
follows may itself be a digit or a blank. With it a name is read back character by character
(`name_escaped`), and so is a string (`stringBody_escaped`). `escaped_selects` puts the tokens into
selectors.
-/

namespace Selectors

/-! ## Hexadecimal digits -/

/-- The code of a character in hexadecimal digits, the letters in upper case if `upper` says so. -/
def hexDigits (upper : Bool) (c : Char) : List Char :=
  (Nat.toDigits 16 c.toNat).map fun d => if upper then d.toUpper else d

/-- The characters of a text, each as a backslash, its code and a blank. -/
def escapedChars (upper : Bool) (cs : List Char) : List Char :=
  cs.flatMap fun c => '\\' :: (hexDigits upper c ++ [' '])

/-- A text written with escapes alone. -/
def escaped (upper : Bool) (text : String) : String :=
  String.ofList (escapedChars upper text.toList)

namespace Lexer

variable {upper : Bool} {c quote : Char} {cs ds rest : List Char}

/-- Every hexadecimal digit is read as the number it was written for. -/
theorem hexDigit_digitChar : ∀ upper : Bool, ∀ d < 16,
    let digit := if upper then d.digitChar.toUpper else d.digitChar
    isHexDigit digit = true ∧ hexDigitValue digit = d := by
  decide

theorem isHexDigit_of_mem_hexDigits {d : Char} (member : d ∈ hexDigits upper c) :
    isHexDigit d = true := by
  obtain ⟨digit, inside, rfl⟩ := List.mem_map.1 member
  obtain ⟨n, small, rfl⟩ := exists_of_mem_toDigits (by decide) inside
  exact (hexDigit_digitChar upper n small).1

theorem foldl_hexDigits :
    (hexDigits upper c).foldl (fun n d => n * 16 + hexDigitValue d) 0 = c.toNat := by
  rw [hexDigits, List.foldl_map]
  exact foldl_toDigits (by decide) (fun d small => (hexDigit_digitChar upper d small).2) _

/-- Six digits are enough for every character. -/
theorem length_hexDigits_le (upper : Bool) (c : Char) : (hexDigits upper c).length ≤ 6 := by
  rw [hexDigits, List.length_map, Nat.length_toDigits_le_iff (by decide) (by decide)]
  have valid : c.val.toNat < 0xd800 ∨ 0xdfff < c.val.toNat ∧ c.val.toNat < 0x110000 := c.valid
  show c.val.toNat < 16 ^ 6
  omega

theorem exists_hexDigits (upper : Bool) (c : Char) : ∃ d ds, hexDigits upper c = d :: ds := by
  apply List.exists_cons_of_ne_nil
  rw [hexDigits, Ne, List.map_eq_nil_iff]
  exact Nat.toDigits_ne_nil

/-! ## Escapes -/

/-- The blank behind the digits ends the escape and belongs to it. -/
theorem escape_hexDigits (noNull : c ≠ '\x00') :
    escape (hexDigits upper c ++ ' ' :: rest) = (c, rest) := by
  have value := @foldl_hexDigits upper c
  have short := length_hexDigits_le upper c
  have allHex : ∀ d ∈ hexDigits upper c, isHexDigit d = true := fun _ => isHexDigit_of_mem_hexDigits
  obtain ⟨d, ds, digits⟩ := exists_hexDigits upper c
  rw [digits] at value short allHex ⊢
  rw [List.forall_mem_cons] at allHex
  -- with the first one there are six digits at most, so the escape takes all of them
  have more : ((ds ++ ' ' :: rest).take 5).takeWhile isHexDigit = ds := by
    have stops : ((' ' :: rest).take (5 - ds.length)).takeWhile isHexDigit = [] := by
      cases 5 - ds.length <;> rfl
    rw [List.take_append, List.take_of_length_le (Nat.le_of_succ_le_succ short),
      List.takeWhile_append_of_pos allHex.2, stops, List.append_nil]
  have code : codePoint (d :: ds) = c := by
    simp only [codePoint, value, Char.ofNat_toNat]
    exact if_neg (by simpa using noNull)
  have behind : (ds ++ ' ' :: rest).drop ds.length = ' ' :: rest := List.drop_left
  rw [List.cons_append, escape, if_pos allHex.1]
  simp only [more, code, behind]
  rfl

theorem startsEscape_hexDigits : startsEscape ('\\' :: (hexDigits upper c ++ rest)) = true := by
  obtain ⟨d, ds, digits⟩ := exists_hexDigits upper c
  have isHex : isHexDigit d = true := isHexDigit_of_mem_hexDigits (digits ▸ List.mem_cons_self)
  rw [startsEscape_cons_iff, digits]
  refine ⟨rfl, fun isBreak => ?_⟩
  rw [Option.some.inj isBreak] at isHex
  cases isHex

theorem escapedChars_cons : escapedChars upper (c :: cs) ++ rest =
    '\\' :: (hexDigits upper c ++ ' ' :: (escapedChars upper cs ++ rest)) := by
  simp [escapedChars]

/-- A name goes on with the characters that the escapes stand for. -/
theorem name_escaped (noNull : '\x00' ∉ cs) :
    name (escapedChars upper cs ++ rest) = (cs ++ (name rest).1, (name rest).2) := by
  induction cs with
  | nil => rfl
  | cons c cs ih =>
    rw [List.mem_cons, not_or] at noNull
    rw [escapedChars_cons, name_escape (by decide) startsEscape_hexDigits,
      escape_hexDigits (Ne.symm noNull.1), ih noNull.2]
    rfl

/-- A string of escapes ends at the quote behind them. -/
theorem stringBody_escaped (noNull : '\x00' ∉ cs) (isQuote : quote = '"' ∨ quote = '\x27') :
    stringBody quote (escapedChars upper cs ++ quote :: rest) = (some cs, rest) := by
  induction cs with
  | nil => exact stringBody_quote (beq_self_eq_true quote)
  | cons c cs ih =>
    rw [List.mem_cons, not_or] at noNull
    obtain ⟨d, ds, digits⟩ := exists_hexDigits upper c
    have read := @escape_hexDigits upper c (escapedChars upper cs ++ quote :: rest)
      (Ne.symm noNull.1)
    have isHex : isHexDigit d = true := isHexDigit_of_mem_hexDigits (digits ▸ List.mem_cons_self)
    have noBreak : ¬ (d == '\n') = true := fun isBreak =>
      absurd (eq_of_beq isBreak ▸ isHex) (by decide)
    have notQuote : ¬ ('\\' == quote) = true := by
      rcases isQuote with rfl | rfl <;> decide
    rw [digits, List.cons_append] at read
    rw [escapedChars_cons, digits, List.cons_append,
      stringBody_escape notQuote (by decide) (by decide) noBreak, read, ih noNull.2]
    rfl

/-- A character that escapes are made of. -/
def isEscaping (c : Char) : Bool := c == '\\' || isHexDigit c || c == ' '

theorem isEscaping_of_mem_escapedChars (member : c ∈ escapedChars upper cs) :
    isEscaping c = true := by
  obtain ⟨d, _, inside⟩ := List.mem_flatMap.1 member
  rw [List.mem_cons, List.mem_append, List.mem_singleton] at inside
  rcases inside with rfl | inside | rfl
  · rfl
  · simp [isEscaping, isHexDigit_of_mem_hexDigits inside]
  · rfl

/-! ## Tokens -/

/-- The characters around escapes only have to be uniform themselves. -/
theorem tokenize_escaped (front text back : String)
    (uniform : (front.toList ++ back.toList).any ['\r', '\x0c', '\x00'].contains = false) :
    tokenize (front ++ escaped upper text ++ back) =
      scan (front.toList ++ (escapedChars upper text.toList ++ back.toList)) := by
  let plain (c : Char) : Bool := !(['\r', '\x0c', '\x00'].contains c)
  have chars : (front ++ escaped upper text ++ back).toList =
      front.toList ++ (escapedChars upper text.toList ++ back.toList) := by
    simp [escaped]
  have around {c : Char} (member : c ∈ front.toList ++ back.toList) : plain c = true := by
    rw [List.any_eq_false] at uniform
    simpa [plain] using uniform c member
  have inside {c : Char} (member : c ∈ escapedChars upper text.toList) : plain c = true := by
    have others : ['\r', '\x0c', '\x00'].any isEscaping = false := by decide
    rw [List.any_eq_false] at others
    have notOther := fun found => others c found (isEscaping_of_mem_escapedChars member)
    simpa [plain] using notOther
  have allPlain : ∀ c ∈ front.toList ++ (escapedChars upper text.toList ++ back.toList),
      plain c = true := by
    intro c member
    rw [List.mem_append, List.mem_append] at member
    rcases member with member | member | member
    · exact around (List.mem_append_left _ member)
    · exact inside member
    · exact around (List.mem_append_right _ member)
  rw [tokenize, chars, normalize_of_all plain allPlain (by decide)]

section Texts

variable (full : cs ≠ [])

include full in
theorem startsEscape_escaped : startsEscape (escapedChars upper cs) = true := by
  obtain ⟨c, cs, rfl⟩ := List.exists_cons_of_ne_nil full
  rw [← List.append_nil (escapedChars upper (c :: cs)), escapedChars_cons]
  exact startsEscape_hexDigits

include full in
theorem startsName_escaped : startsName (escapedChars upper cs) = true := by
  have escape := @startsEscape_escaped upper cs full
  obtain ⟨c, cs, rfl⟩ := List.exists_cons_of_ne_nil full
  rw [← List.append_nil (escapedChars upper (c :: cs)), escapedChars_cons] at escape ⊢
  rw [startsName_cons, if_neg (by decide), escape, Bool.or_true]

variable (noNull : '\x00' ∉ cs)
include noNull

theorem name_escaped_alone : name (escapedChars upper cs) = (cs, []) := by
  have read := @name_escaped upper cs [] noNull
  rwa [List.append_nil, name_nil, List.append_nil] at read

theorem scan_string_escaped (isQuote : quote = '"' ∨ quote = '\x27') :
    scan (quote :: (escapedChars upper cs ++ quote :: rest)) =
      .string (String.ofList cs) :: scan rest := by
  have string : lexeme quote (escapedChars upper cs ++ quote :: rest) =
      stringToken quote (escapedChars upper cs ++ quote :: rest) := by
    rcases isQuote with rfl | rfl <;> rfl
  have noSlash : quote ≠ '/' := by
    rcases isQuote with rfl | rfl <;> decide
  rw [scan_cons_of_ne noSlash, string, stringToken_eq, stringBody_escaped noNull isQuote]
  rfl

include full

theorem scan_escaped : scan (escapedChars upper cs) = [.ident (String.ofList cs), .eof] := by
  have isName := @startsName_escaped upper cs full
  have read := @name_escaped_alone upper cs noNull
  have ident := @identLike_ident (escapedChars upper cs) (by rw [read]; nofun)
  obtain ⟨more, shape⟩ : ∃ more, escapedChars upper cs = '\\' :: more := by
    obtain ⟨c, cs, rfl⟩ := List.exists_cons_of_ne_nil full
    exact ⟨_, rfl⟩
  have loose : Loose '\\' := ⟨by decide, by decide, by decide, rfl⟩
  rw [read, shape] at ident
  rw [shape] at isName ⊢
  rw [scan_cons_of_ne (by decide), loose.lexeme_name Bool.false_ne_true Bool.false_ne_true isName,
    ident, scan_nil skipComments_nil]

theorem scan_hash_escaped :
    scan ('#' :: escapedChars upper cs) = [.hash (String.ofList cs) .id, .eof] := by
  have reads : lexeme '#' (escapedChars upper cs) = hash (escapedChars upper cs) := rfl
  rw [scan_cons_of_ne (by decide), reads, hash, startsEscape_escaped full, Bool.or_true,
    if_pos rfl, startsName_escaped full, if_pos rfl, name_escaped_alone noNull,
    scan_nil skipComments_nil]

theorem scan_dot_escaped :
    scan ('.' :: escapedChars upper cs) = [.delim '.', .ident (String.ofList cs), .eof] := by
  have loose : Loose '.' := ⟨by decide, by decide, by decide, rfl⟩
  have noNumber : ¬ startsNumber ('.' :: escapedChars upper cs) = true := by
    obtain ⟨c, cs, rfl⟩ := List.exists_cons_of_ne_nil full
    exact Bool.false_ne_true
  have noName : ¬ startsName ('.' :: escapedChars upper cs) = true := by
    rw [startsName_cons]
    exact Bool.false_ne_true
  rw [scan_cons_of_ne (by decide), loose.lexeme_delim noNumber Bool.false_ne_true noName,
    scan_escaped full noNull]

end Texts

/-- The start of a selector that compares the attribute `class` with a string. -/
theorem scan_class_equals : scan (['[', 'c', 'l', 'a', 's', 's', '='] ++ '\x27' :: rest) =
    .leftBracket :: .ident "class" :: .delim '=' :: scan ('\x27' :: rest) := by
  have bracket {cs : List Char} : scan ('[' :: cs) = .leftBracket :: scan cs :=
    scan_cons_of_ne (by decide)
  have equals : scan ('=' :: '\x27' :: rest) = .delim '=' :: scan ('\x27' :: rest) :=
    scan_cons_of_ne (by decide)
  have word : scan ('c' :: (['l', 'a', 's', 's'] ++ '=' :: '\x27' :: rest)) =
      .ident "class" :: scan ('=' :: '\x27' :: rest) := by
    have letter : Loose 'c' := .of_isNameChar (by decide)
    refine scan_word ?_ (List.all_eq_true.1 rfl) (name_stop (by decide) Bool.false_ne_true)
      (by simp)
    exact letter.lexeme_name Bool.false_ne_true Bool.false_ne_true rfl
  exact bracket.trans (congrArg _ (word.trans (congrArg _ equals)))

end Lexer

/-! ## Selectors -/

open Grammar

/-- A text that spells one simple selector compiles to what the simple selector compiles to. -/
theorem compileList_alone {text : String} {table : Namespaces} {tokens : List Token}
    {simple : Simple} {c : Compiled} (written : tokenize text = tokens ++ [.eof])
    (spells : SpellsSimple table tokens simple) (compiled : simple.alone.compile = .ok c) :
    compileList text table = .ok [c] := by
  have full : tokens ≠ [] := by
    obtain ⟨token, rest, rfl, -⟩ := spells.starts
    exact List.cons_ne_nil _ _
  have plain : SpellsPlain table tokens [simple] := by
    have members := SpellsMembers.cons spells .nil
    rw [List.append_nil] at members
    exact .mk .missing members
  have compound : SpellsCompound table tokens [simple] none := by
    have whole := SpellsCompound.mk plain .missing (by simpa using full)
    rwa [List.append_nil] at whole
  have selector : SpellsSelector table tokens simple.alone := by
    have alone := SpellsSelector.of_chain (List.forall_mem_nil _) (.single compound)
      (List.forall_mem_nil _)
    rwa [List.append_nil] at alone
  have parsed : parse text table = .ok [simple.alone] := by
    apply SpellsList.parse_eq
    rw [written]
    exact .last selector
  rw [compileList, parsed]
  simp only [compileAll, compiled]
  rfl

/-- An identifier selector has no fault. -/
theorem Simple.compile_id (value : String) :
    ∃ c, (Simple.id value).alone.compile = .ok c ∧
      ∀ (doc : Document) (e : Element), c.accepts doc e = true ↔ e.data.id? = some value := by
  have asks : (Simple.id value).matcher = .ok (.test (.id value)) := by
    rw [Simple.matcher]
  obtain ⟨c, compiled, accepts⟩ := Simple.compile_alone asks
  refine ⟨c, compiled, fun doc e => ?_⟩
  rw [accepts, Simple.Holds]

section Escaped

variable {text : String} {quote : Char} (full : text ≠ "") (noNull : '\x00' ∉ text.toList)
  (upper : Bool)
include noNull

theorem tokenize_string_escaped (isQuote : quote = '"' ∨ quote = '\x27') :
    tokenize (quote.toString ++ escaped upper text ++ quote.toString) = [.string text, .eof] := by
  have scanned := @Lexer.scan_string_escaped upper quote text.toList [] noNull isQuote
  have alone : quote.toString.toList = [quote] := String.toList_singleton quote
  rw [String.ofList_toList, Lexer.scan_nil Lexer.skipComments_nil] at scanned
  rw [Lexer.tokenize_escaped, alone]
  · exact scanned
  · rw [alone]
    rcases isQuote with rfl | rfl <;> rfl

theorem tokenize_class_equals_escaped :
    tokenize ("[class='" ++ escaped upper text ++ "']") =
      [.leftBracket, .ident "class", .delim '=', .string text, .rightBracket, .eof] := by
  have last : Lexer.scan [']'] = [.rightBracket, .eof] := by
    rw [Lexer.scan_cons_of_ne (by decide)]
    exact congrArg _ (Lexer.scan_nil Lexer.skipComments_nil)
  have scanned := @Lexer.scan_string_escaped upper '\x27' text.toList [']'] noNull (Or.inr rfl)
  rw [String.ofList_toList, last] at scanned
  rw [Lexer.tokenize_escaped _ _ _ rfl]
  refine Lexer.scan_class_equals.trans ?_
  exact congrArg (fun tokens => Token.leftBracket :: .ident "class" :: .delim '=' :: tokens) scanned

include full

theorem tokenize_ident_escaped : tokenize (escaped upper text) = [.ident text, .eof] := by
  have scanned := @Lexer.scan_escaped upper text.toList (mt String.toList_eq_nil_iff.1 full) noNull
  have written := @Lexer.tokenize_escaped upper "" text "" rfl
  rw [String.empty_append, String.append_empty] at written
  rw [written]
  simpa using scanned

theorem tokenize_hash_escaped :
    tokenize ("#" ++ escaped upper text) = [.hash text .id, .eof] := by
  have scanned :=
    @Lexer.scan_hash_escaped upper text.toList (mt String.toList_eq_nil_iff.1 full) noNull
  have written := @Lexer.tokenize_escaped upper "#" text "" rfl
  rw [String.append_empty] at written
  rw [written]
  simpa using scanned

theorem tokenize_dot_escaped :
    tokenize ("." ++ escaped upper text) = [.delim '.', .ident text, .eof] := by
  have scanned :=
    @Lexer.scan_dot_escaped upper text.toList (mt String.toList_eq_nil_iff.1 full) noNull
  have written := @Lexer.tokenize_escaped upper "." text "" rfl
  rw [String.append_empty] at written
  rw [written]
  simpa using scanned

end Escaped

/-- **Every text can be written with escapes.** Alone they make an identifier, behind a number sign
a hash and between quotes a string. So every class, every identifier and every value of `class` can
be selected, under any table of namespaces. Only the null character cannot be written. -/
theorem escaped_selects {text : String} (full : text ≠ "") (noNull : '\x00' ∉ text.toList)
    (upper : Bool) :
    tokenize (escaped upper text) = [.ident text, .eof] ∧
    tokenize ("#" ++ escaped upper text) = [.hash text .id, .eof] ∧
    (∀ quote ∈ ['"', '\x27'],
      tokenize (quote.toString ++ escaped upper text ++ quote.toString) = [.string text, .eof]) ∧
    ∀ table : Namespaces,
      (∃ c, compileList ("." ++ escaped upper text) table = .ok [c] ∧
        ∀ (doc : Document) (e : Element), c.accepts doc e = true ↔ text ∈ e.data.classes) ∧
      (∃ c, compileList ("#" ++ escaped upper text) table = .ok [c] ∧
        ∀ (doc : Document) (e : Element), c.accepts doc e = true ↔ e.data.id? = some text) ∧
      ∃ c, compileList ("[class='" ++ escaped upper text ++ "']") table = .ok [c] ∧
        ∀ (doc : Document) (e : Element), c.accepts doc e = true ↔
          e.data.getAttribute? "" "class" = some text := by
  refine ⟨tokenize_ident_escaped full noNull upper, tokenize_hash_escaped full noNull upper, ?_, ?_⟩
  · intro quote isQuote
    exact tokenize_string_escaped noNull upper (by simpa using isQuote)
  intro table
  refine ⟨?_, ?_, ?_⟩
  · obtain ⟨c, compiled, accepts⟩ := Simple.compile_className text
    exact ⟨c, compileList_alone (tokenize_dot_escaped full noNull upper) (.className text) compiled,
      accepts⟩
  · obtain ⟨c, compiled, accepts⟩ := Simple.compile_id text
    exact ⟨c, compileList_alone (tokenize_hash_escaped full noNull upper) (.id text) compiled,
      accepts⟩
  · obtain ⟨c, compiled, accepts⟩ :=
      Simple.compile_hasAttribute "" "class" text (some .equals)
    have compares : SpellsComparison [.delim '=', .string text, .rightBracket] (some .equals) text :=
      .compared .equals (List.forall_mem_nil _) (.string text) (List.forall_mem_nil _)
    have spells : SpellsSimple table
        [.leftBracket, .ident "class", .delim '=', .string text, .rightBracket]
        (.hasAttribute ⟨some "", "class", some .equals, text⟩) :=
      .hasAttribute (.mk (List.forall_mem_nil _) (.bare (.name "class")) (List.forall_mem_nil _)
        compares)
    refine ⟨c, compileList_alone (tokenize_class_equals_escaped noNull upper) spells compiled,
      fun doc e => ?_⟩
    rw [accepts]
    simp [AttributeOperator.Relates]

/-- The class `1'`, the first character of which cannot start a name, is selected by `.\31 \27 `. -/
theorem escaped_selects_digit_and_quote :
    let text := "1'"
    let e : Element := ⟨1, { name := "li", attributes := [⟨"", "class", text⟩] }⟩
    text ≠ "" ∧ '\x00' ∉ text.toList ∧ "." ++ escaped false text = ".\\31 \\27 " ∧
      tokenize (escaped false text) = [.ident text, .eof] ∧
      ∃ c, compileList ("." ++ escaped false text) {} = .ok [c] ∧ c.accepts default e = true := by
  intro text e
  have full : text ≠ "" := by decide
  have noNull : '\x00' ∉ text.toList := by decide
  obtain ⟨written, -, -, selects⟩ := escaped_selects full noNull false
  obtain ⟨c, compiled, accepts⟩ := (selects {}).1
  exact ⟨full, noNull, by decide, written, c, compiled, (accepts default e).2 (by decide)⟩

end Selectors
