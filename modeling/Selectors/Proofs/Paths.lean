import Mathlib.Algebra.Group.Nat.Defs
import Selectors.CommandLine
import Selectors.Proofs.Composition
import Selectors.Proofs.Spellings

/-!
Paths of elements, as data and as texts. A path has a first step and a step for every level below
it. Its text is a selector: each step spells a compound, and a sign for the child combinator stands
between two of them. As long as all names are plain (`isPlainName`), the text is read back as just
this chain (`Path.parse_text`), so a path can be told from its text (`Path.text_inj`).
-/

namespace Selectors

namespace CommandLine

open Grammar Lexer

/-! ## Paths -/

/-- One step of a path: a name, an identifier, and unless the step is the first one, a place among
siblings counted from one. -/
structure PathStep : Type where
  name : String
  id? : Option String
  place? : Option Nat
deriving DecidableEq, Repr

/-- Steps that lead down from a root. -/
inductive Path : Type where
  | root (step : PathStep)
  | child (above : Path) (step : PathStep)
deriving DecidableEq, Repr

/-- The tokens between the parentheses of a place. -/
def placeArguments (n : Nat) : List Token := [.number (writtenNumber none (Nat.toDigits 10 n))]

namespace PathStep

def idText (s : PathStep) : String := s.id?.elim "" ("#" ++ ·)

def placeText (s : PathStep) : String :=
  s.place?.elim "" fun n => ":nth-child(" ++ toString n ++ ")"

def text (s : PathStep) : String := s.name ++ s.idText ++ s.placeText

def idTokens (s : PathStep) : List Token := s.id?.elim [] fun id => [.hash id .id]

def placeTokens (s : PathStep) : List Token :=
  s.place?.elim [] fun n => .colon :: .function "nth-child" :: (placeArguments n ++ [.rightParen])

def tokens (s : PathStep) : List Token := .ident s.name :: (s.idTokens ++ s.placeTokens)

/-- What the step asks of an element beside the name. -/
def members (s : PathStep) : Compound :=
  s.id?.elim [] (fun id => [.id id]) ++
    s.place?.elim [] fun n => [.functional "nth-child" (placeArguments n)]

/-- What the step asks of an element. -/
def compound (s : PathStep) : Compound := .typeName s.name :: s.members

end PathStep

namespace Path

def text : Path → String
  | .root s => s.text
  | .child above s => above.text ++ " > " ++ s.text

def tokens : Path → List Token
  | .root s => s.tokens
  | .child above s => above.tokens ++ ([.blank, .delim '>', .blank] ++ s.tokens)

/-- The chain that the path is as a selector. -/
def chain : Path → Chain
  | .root s => .single s.compound
  | .child above s => .joined above.chain .child s.compound

end Path

/-! ## Plain names -/

/-- A letter or an underscore, and behind it letters, digits, underscores and hyphens, all of them
ASCII. -/
def isPlainName (name : String) : Bool :=
  match name.toList with
  | [] => false
  | c :: cs => (c.isAlpha || c == '_') && cs.all fun d => d.isAlphanum || d == '_' || d == '-'

/-- Both the name and the identifier of the step are plain. -/
def PathStep.Plain (s : PathStep) : Prop :=
  isPlainName s.name = true ∧ ∀ id ∈ s.id?, isPlainName id = true

/-- All names and identifiers of the path are plain. -/
def Path.Plain : Path → Prop
  | .root s => s.Plain
  | .child above s => above.Plain ∧ s.Plain

section Names

variable {c : Char} {cs rest : List Char} {name : String}

theorem exists_of_isPlainName (plain : isPlainName name = true) :
    ∃ c cs, name.toList = c :: cs ∧ isNameStart c = true ∧ ∀ d ∈ c :: cs, isNameChar d = true := by
  unfold isPlainName at plain
  split at plain
  · cases plain
  · rename_i c cs characters
    rw [Bool.and_eq_true, List.all_eq_true] at plain
    have starts : isNameStart c = true := by
      rw [isNameStart, plain.1, Bool.true_or]
    refine ⟨c, cs, characters, starts, List.forall_mem_cons.2 ⟨?_, fun d member => ?_⟩⟩
    · simp [isNameChar, starts]
    · have belongs := plain.2 d member
      simp only [Char.isAlphanum, Bool.or_eq_true] at belongs
      simp only [isNameChar, isNameStart, Bool.or_eq_true]
      tauto

theorem not_startsNumber_of_isNameStart (starts : isNameStart c = true) :
    startsNumber (c :: cs) = false := by
  have other {d : Char} (noStart : isNameStart d = false) : c ≠ d := by
    rintro rfl
    rw [starts] at noStart
    cases noStart
  have noDigit : c.isDigit = false := by
    rw [Bool.eq_false_iff]
    intro digit
    -- the codes of letters, of the low line and of all that is beyond ASCII are greater
    have greatest : c.toNat ≤ 57 :=
      UInt32.le_iff_toNat_le.1 (of_decide_eq_true (Bool.and_eq_true_iff.1 digit).2)
    have letter (alpha : c.isAlpha = true) : 65 ≤ c.toNat := by
      rcases Bool.or_eq_true_iff.1 alpha with upper | lower
      · exact UInt32.le_iff_toNat_le.1 (of_decide_eq_true upper).1
      · have low : 97 ≤ c.toNat :=
          UInt32.le_iff_toNat_le.1 (of_decide_eq_true (Bool.and_eq_true_iff.1 lower).1)
        omega
    rw [isNameStart, Bool.or_eq_true, Bool.or_eq_true, beq_iff_eq, decide_eq_true_eq] at starts
    rcases starts with (alpha | rfl) | beyond
    · have least := letter alpha
      omega
    · exact absurd digit (by decide)
    · omega
  have unsigned : sign (c :: cs) = (none, c :: cs) := by
    have noPlus : c ≠ '+' := other rfl
    have noMinus : c ≠ '-' := other rfl
    simp [sign, noPlus, noMinus]
  have noPoint : c ≠ '.' := other rfl
  rw [startsNumber_eq, unsigned]
  simp [startsDigit, startsFraction, noDigit, noPoint]

theorem startsName_of_isNameStart (starts : isNameStart c = true) :
    startsName (c :: cs) = true := by
  have noHyphen : c ≠ '-' := by
    rintro rfl
    cases starts
  rw [startsName_cons, if_neg noHyphen, starts, Bool.true_or]

theorem lexeme_of_isNameStart (starts : isNameStart c = true) :
    lexeme c cs = identLike (c :: cs) := by
  have isName : isNameChar c = true := by simp [isNameChar, starts]
  have noKeyword : c ≠ '@' := by
    rintro rfl
    cases starts
  refine (Loose.of_isNameChar isName).lexeme_name ?_ ?_ (startsName_of_isNameStart starts)
  · rw [not_startsNumber_of_isNameStart starts]
    exact Bool.false_ne_true
  · simp [noKeyword]

/-- A plain name is read up to where it ends. -/
theorem name_plain (plain : isPlainName name = true) (ends : Lexer.name rest = ([], rest)) :
    Lexer.name (name.toList ++ rest) = (name.toList, rest) := by
  obtain ⟨c, cs, characters, -, named⟩ := exists_of_isPlainName plain
  rw [characters, name_append named, ends, List.append_nil]

/-- A plain name is read as an identifier or a function. -/
theorem scan_identLike_plain (plain : isPlainName name = true) :
    scan (name.toList ++ rest) =
      (identLike (name.toList ++ rest)).1 :: scan (identLike (name.toList ++ rest)).2 := by
  obtain ⟨c, cs, characters, starts, -⟩ := exists_of_isPlainName plain
  have noSlash : c ≠ '/' := by
    rintro rfl
    cases starts
  rw [characters, List.cons_append, scan_cons_of_ne noSlash, lexeme_of_isNameStart starts]

theorem scan_function_plain (plain : isPlainName name = true) :
    scan (name.toList ++ '(' :: rest) = .function name :: scan rest := by
  have ends : Lexer.name ('(' :: rest) = ([], '(' :: rest) :=
    name_stop (by decide) Bool.false_ne_true
  have read := name_plain plain ends
  rw [scan_identLike_plain plain, identLike_function (by rw [read]), read, String.ofList_toList]

/-- What may follow a name in a path. -/
def EndsName (rest : List Char) : Prop := ∀ c ∈ rest.head?, c ∈ [' ', '#', ':']

theorem EndsName.name_eq (ends : EndsName rest) : Lexer.name rest = ([], rest) := by
  cases rest with
  | nil => exact name_nil
  | cons c rest =>
    have found := ends c rfl
    simp only [List.mem_cons, List.not_mem_nil, or_false] at found
    rcases found with rfl | rfl | rfl <;> exact name_stop (by decide) Bool.false_ne_true

theorem scan_ident_plain (plain : isPlainName name = true) (ends : EndsName rest) :
    scan (name.toList ++ rest) = .ident name :: scan rest := by
  have read := name_plain plain ends.name_eq
  have noParen : rest.head? ≠ some '(' := fun paren => absurd (ends '(' paren) (by decide)
  rw [scan_identLike_plain plain, identLike_ident (by rw [read]; exact noParen), read,
    String.ofList_toList]

theorem scan_hash_plain (plain : isPlainName name = true) (ends : EndsName rest) :
    scan ('#' :: (name.toList ++ rest)) = .hash name .id :: scan rest := by
  have read := name_plain plain ends.name_eq
  have reads : lexeme '#' (name.toList ++ rest) = Lexer.hash (name.toList ++ rest) := rfl
  obtain ⟨c, cs, characters, starts, named⟩ := exists_of_isPlainName plain
  have isName : startsName (name.toList ++ rest) = true := by
    rw [characters]
    exact startsName_of_isNameStart starts
  have goesOn : (name.toList ++ rest).head?.any isNameChar = true := by
    rw [characters]
    exact named c List.mem_cons_self
  rw [scan_cons_of_ne (by decide), reads, Lexer.hash, goesOn, Bool.true_or, if_pos rfl, isName,
    if_pos rfl, read, String.ofList_toList]

end Names

/-! ## Tokens -/

section Tokens

variable {n : Nat} {rest : List Char} {s : PathStep} {p : Path}

theorem scan_single {c : Char} {token : Token} (noSlash : c ≠ '/')
    (reads : lexeme c rest = (token, rest)) : scan (c :: rest) = token :: scan rest := by
  rw [scan_cons_of_ne noSlash, reads]

/-- The digits of a place are read up to the parenthesis. -/
theorem scan_digits : scan (Nat.toDigits 10 n ++ ')' :: rest) =
    .number (writtenNumber none (Nat.toDigits 10 n)) :: scan (')' :: rest) := by
  have ends : EndsNumber (')' :: rest) := by
    rintro _ ⟨⟩
    exact ⟨by decide, by decide⟩
  have allDigits (c : Char) (member : c ∈ Nat.toDigits 10 n) := isDigit_of_mem_toDigits member
  obtain ⟨d, ds, digits⟩ := List.exists_cons_of_ne_nil (@Nat.toDigits_ne_nil n 10)
  rw [digits] at allDigits ⊢
  have read := @number_written none d ds (')' :: rest) allDigits ends
  have written := @scan_written none d ds (')' :: rest) allDigits
  rw [signText, List.nil_append] at read written
  have noUnit : ¬ startsName (number (d :: ds ++ ')' :: rest)).2 = true := by
    rw [read]
    exact Bool.false_ne_true
  have noPercent : (number (d :: ds ++ ')' :: rest)).2.head? ≠ some '%' := by
    rw [read]
    exact fun percent => absurd (Option.some.inj percent) (by decide)
  rw [written, numeric_plain noUnit noPercent, read]

theorem scan_place : scan ((":nth-child(" ++ toString n ++ ")").toList ++ rest) =
    .colon :: .function "nth-child" :: (placeArguments n ++ [.rightParen]) ++ scan rest := by
  have characters : (":nth-child(" ++ toString n ++ ")").toList ++ rest =
      ':' :: ("nth-child".toList ++ '(' :: (Nat.toDigits 10 n ++ ')' :: rest)) := by
    simp
  rw [characters, scan_single (by decide) rfl, scan_function_plain (by decide), scan_digits,
    scan_single (by decide) rfl]
  rfl

/-- What may follow a path: nothing, or a blank. -/
def EndsPath (rest : List Char) : Prop := ∀ c ∈ rest.head?, c = ' '

theorem EndsPath.endsName (ends : EndsPath rest) : EndsName rest := by
  intro c first
  rw [ends c first]
  exact List.mem_cons_self

/-- Nothing or a place follows the name and the identifier of a step. -/
theorem PathStep.endsName_placeText (ends : EndsPath rest) :
    EndsName (s.placeText.toList ++ rest) := by
  rw [placeText]
  cases s.place? with
  | none => exact ends.endsName
  | some n =>
    intro c first
    have colon : ':' = c := by simpa using first
    rw [← colon]
    decide

theorem PathStep.scan_placeText :
    scan (s.placeText.toList ++ rest) = s.placeTokens ++ scan rest := by
  rw [placeText, placeTokens]
  cases s.place? with
  | none => rfl
  | some n => exact scan_place

/-- A step is read as its tokens, whatever follows the path. -/
theorem PathStep.scan_text (plain : s.Plain) (ends : EndsPath rest) :
    scan (s.text.toList ++ rest) = s.tokens ++ scan rest := by
  obtain ⟨plainName, plainId⟩ := plain
  have endsPlace := s.endsName_placeText ends
  rw [text, tokens, String.toList_append, String.toList_append, List.append_assoc,
    List.append_assoc, idText, idTokens]
  cases found : s.id? with
  | none =>
    rw [Option.elim_none, Option.elim_none, String.toList_empty, List.nil_append, List.nil_append,
      scan_ident_plain plainName endsPlace, scan_placeText, List.cons_append]
  | some id =>
    have endsId : EndsName ('#' :: (id.toList ++ (s.placeText.toList ++ rest))) := by
      rintro _ ⟨⟩
      decide
    have hash : ("#" ++ id).toList = '#' :: id.toList := by simp
    rw [Option.elim_some, Option.elim_some, hash, List.cons_append,
      scan_ident_plain plainName endsId, scan_hash_plain (plainId id found) endsPlace,
      scan_placeText]
    rfl

/-- A step does not start with a blank. -/
theorem PathStep.solid_text (plain : s.Plain) :
    (s.text.toList ++ rest).head?.all (fun c => !isBlank c) = true := by
  obtain ⟨c, cs, characters, starts, named⟩ := exists_of_isPlainName plain.1
  have solid := (Loose.of_isNameChar (named c List.mem_cons_self)).blank
  rw [text, String.toList_append, String.toList_append, characters]
  simpa using solid

/-- A path is read as its tokens, step by step. -/
theorem Path.scan_text (plain : p.Plain) (ends : EndsPath rest) :
    scan (p.text.toList ++ rest) = p.tokens ++ scan rest := by
  induction p generalizing rest with
  | root s => exact s.scan_text plain ends
  | child above s ih =>
    obtain ⟨plainAbove, plainStep⟩ := plain
    have characters : (child above s).text.toList ++ rest =
        above.text.toList ++ ' ' :: '>' :: ' ' :: (s.text.toList ++ rest) := by
      simp [text]
    have endsAbove : EndsPath (' ' :: '>' :: ' ' :: (s.text.toList ++ rest)) := by
      rintro _ ⟨⟩
      rfl
    rw [characters, ih plainAbove endsAbove, scan_blank rfl, scan_single (by decide) rfl,
      scan_blank (s.solid_text plainStep), s.scan_text plainStep ends, tokens, List.append_assoc]
    rfl

/-! ## Whole texts -/

/-- The characters of a path: those of names and those of signs. -/
def isPathChar (c : Char) : Bool := isNameChar c || [' ', '>', '#', ':', '(', ')'].contains c

theorem isPathChar_of_isPlainName {name : String} (plain : isPlainName name = true) :
    ∀ c ∈ name.toList, isPathChar c = true := by
  obtain ⟨c, cs, characters, -, named⟩ := exists_of_isPlainName plain
  intro d member
  rw [isPathChar, named d (characters ▸ member), Bool.true_or]

theorem PathStep.isPathChar_text (plain : s.Plain) : ∀ c ∈ s.text.toList, isPathChar c = true := by
  have identifier : ∀ c ∈ s.idText.toList, isPathChar c = true := by
    rw [idText]
    cases found : s.id? with
    | none => exact List.forall_mem_nil _
    | some id =>
      have sign : ∀ c ∈ "#".toList, isPathChar c = true := List.all_eq_true.1 rfl
      rw [Option.elim_some, String.toList_append]
      exact List.forall_mem_append.2 ⟨sign, isPathChar_of_isPlainName (plain.2 id found)⟩
  have place : ∀ c ∈ s.placeText.toList, isPathChar c = true := by
    rw [placeText]
    cases s.place? with
    | none => exact List.forall_mem_nil _
    | some n =>
      have front : ∀ c ∈ ":nth-child(".toList, isPathChar c = true := List.all_eq_true.1 rfl
      have digits : ∀ c ∈ (toString n).toList, isPathChar c = true := by
        intro c member
        have digit : c.isDigit = true := isDigit_of_mem_toDigits (n := n) (by simpa using member)
        rw [isPathChar, isNameChar_of_isDigit digit, Bool.true_or]
      have back : ∀ c ∈ ")".toList, isPathChar c = true := List.all_eq_true.1 rfl
      rw [Option.elim_some, String.toList_append, String.toList_append]
      exact List.forall_mem_append.2 ⟨List.forall_mem_append.2 ⟨front, digits⟩, back⟩
  rw [text, String.toList_append, String.toList_append]
  exact List.forall_mem_append.2
    ⟨List.forall_mem_append.2 ⟨isPathChar_of_isPlainName plain.1, identifier⟩, place⟩

theorem Path.isPathChar_text (plain : p.Plain) : ∀ c ∈ p.text.toList, isPathChar c = true := by
  induction p with
  | root s => exact s.isPathChar_text plain
  | child above s ih =>
    have sign : ∀ c ∈ " > ".toList, isPathChar c = true := List.all_eq_true.1 rfl
    rw [text, String.toList_append, String.toList_append]
    exact List.forall_mem_append.2
      ⟨List.forall_mem_append.2 ⟨ih plain.1, sign⟩, s.isPathChar_text plain.2⟩

/-- The text of a path is cut into its tokens. -/
theorem Path.tokenize_text (plain : p.Plain) : tokenize p.text = p.tokens ++ [.eof] := by
  have ends : EndsPath [] := nofun
  have scanned := p.scan_text plain ends
  rw [List.append_nil, scan_nil skipComments_nil] at scanned
  rw [tokenize, normalize_of_all isPathChar (p.isPathChar_text plain) (by decide), scanned]

end Tokens

/-! ## Trees -/

section Trees

variable {s t : PathStep} {p q : Path}

theorem PathStep.spells_members (s : PathStep) :
    SpellsMembers {} (s.idTokens ++ s.placeTokens) s.members := by
  have place : SpellsMembers {} s.placeTokens
      (s.place?.elim [] fun n => [.functional "nth-child" (placeArguments n)]) := by
    rw [placeTokens]
    cases s.place? with
    | none => exact .nil
    | some n =>
      have lower : "nth-child".toLower = "nth-child" := by decide +kernel
      have balanced : Balanced (placeArguments n) := .plain rfl nofun nofun .nil
      have functional : SpellsSimple {} _ (.functional "nth-child".toLower (placeArguments n)) :=
        .functional (by rw [lower]; decide) balanced
      have members := SpellsMembers.cons functional .nil
      rwa [List.append_nil, lower] at members
  rw [idTokens, members]
  cases s.id? with
  | none => exact place
  | some id => exact .cons (.id id) place

/-- A step spells its compound. -/
theorem PathStep.spells (s : PathStep) : SpellsCompound {} s.tokens s.compound none := by
  have named : SpellsType {} [.ident s.name] [.typeName s.name] := .named (.bare (.name s.name))
  have plain : SpellsPlain {} s.tokens s.compound := .mk named s.spells_members
  have whole := SpellsCompound.mk plain .missing (by simp [tokens])
  rwa [List.append_nil] at whole

/-- A path spells its chain. -/
theorem Path.spells (p : Path) : SpellsChain {} p.tokens p.chain none := by
  induction p with
  | root s => exact .single s.spells
  | child above s ih =>
    have blank : Blanks [.blank] := List.forall_mem_singleton.2 rfl
    have sign : SpellsCombinator ([.blank] ++ .delim '>' :: [.blank]) .child :=
      .symbol .child blank blank
    exact .joined ih sign s.spells

/-- **A path is read as one selector**, the chain of its steps. -/
theorem Path.parse_text (plain : p.Plain) :
    parse p.text {} = .ok [.ofChain p.chain none] := by
  apply SpellsList.parse_eq
  rw [p.tokenize_text plain]
  have selector := SpellsSelector.of_chain (List.forall_mem_nil _) p.spells (List.forall_mem_nil _)
  rw [List.nil_append, List.append_nil] at selector
  exact .last selector

/-- If its chain has no fault, the text of a path compiles to one selector. -/
theorem Path.exists_compileList_eq (plain : p.Plain) {m : Matcher}
    (compiled : p.chain.matcher = .ok m) :
    ∃ c, compileList p.text {} = .ok [c] ∧ c.matcher = m := by
  obtain ⟨c, compiles, same⟩ :
      ∃ c, (Selector.ofChain p.chain none).compile = .ok c ∧ c.matcher = m :=
    ⟨_, map_eq_ok_iff.2 ⟨m, compiled, rfl⟩, rfl⟩
  refine ⟨c, ?_, same⟩
  rw [compileList, p.parse_text plain]
  dsimp only
  rw [compileAll, compiles]
  rfl

/-- A number that 64 bits hold is a position. -/
theorem exists_parse?_placeArguments {n : Nat} (fits : n < 2 ^ 63) :
    ∃ b : Int64, AnPlusB.parse? (placeArguments n) = some ⟨0, b⟩ ∧ b.toInt = n := by
  have number : (writtenNumber none (Nat.toDigits 10 n)).integer? = int64? n := by
    rw [writtenNumber, digitsValue_toDigits]
    rfl
  have low : Int64.minValue.toInt ≤ n := Int.le_trans (by decide) (Int.natCast_nonneg n)
  have high : (n : Int) ≤ Int64.maxValue.toInt := by
    have greatest : Int64.maxValue.toInt = 2 ^ 63 - 1 := by decide
    omega
  have found : int64? n = some (Int64.ofInt n) := by rw [int64?, if_pos ⟨low, high⟩]
  refine ⟨Int64.ofInt n, ?_, int64?_eq_some_iff.1 found⟩
  rw [placeArguments, AnPlusB.parse?_number, number, found]
  rfl

/-- A place can be told from its digits. -/
theorem placeArguments_inj {m n : Nat} : placeArguments m = placeArguments n ↔ m = n := by
  refine ⟨fun same => ?_, congrArg placeArguments⟩
  rw [placeArguments, placeArguments, List.cons.injEq, Token.number.injEq, writtenNumber,
    writtenNumber, Numeric.mk.injEq] at same
  have value := congrArg Decimal.coefficient same.1.1
  rwa [digitsValue_toDigits, digitsValue_toDigits] at value

theorem PathStep.compound_inj (same : s.compound = t.compound) : s = t := by
  obtain ⟨name, id?, place?⟩ := s
  obtain ⟨name', id?', place?'⟩ := t
  rw [compound, compound, List.cons.injEq, Simple.typeName.injEq] at same
  obtain ⟨rfl, members⟩ := same
  rcases id? with _ | id <;> rcases id?' with _ | id' <;>
    rcases place? with _ | n <;> rcases place?' with _ | n' <;>
      simp_all [PathStep.members, placeArguments_inj]

theorem Path.chain_inj (same : p.chain = q.chain) : p = q := by
  induction p generalizing q with
  | root s =>
    cases q with
    | root t => exact congrArg root (PathStep.compound_inj (Chain.single.inj same))
    | child _ _ => cases same
  | child above s ih =>
    cases q with
    | root _ => cases same
    | child above' t =>
      obtain ⟨chain, -, compound⟩ := Chain.joined.inj same
      rw [ih chain, PathStep.compound_inj compound]

/-- Two plain paths with one text are one path. -/
theorem Path.text_inj (plain : p.Plain) (plain' : q.Plain) (same : p.text = q.text) : p = q := by
  have parsed := p.parse_text plain
  rw [same, q.parse_text plain', Except.ok.injEq, List.cons.injEq] at parsed
  exact chain_inj (congrArg Selector.chain parsed.1).symm

end Trees

/-! ## Escape sequences -/

/-- The characters that a terminal shows. An escape sequence goes from the escape character up to
the next `m`; `inside` says that one has started. -/
def shown (inside : Bool) : List Char → List Char
  | [] => []
  | c :: cs =>
    if inside then shown (c != 'm') cs
    else if c = '\x1b' then shown true cs
    else c :: shown false cs

/-- A text without its escape sequences. -/
def unstyled (text : String) : String := String.ofList (shown false text.toList)

/-- The text of a path whose last step is put through `emphasis`. -/
def Path.textWith (emphasis : String → String) : Path → String
  | .root s => emphasis s.text
  | .child above s => above.text ++ " > " ++ emphasis s.text

theorem Path.textWith_id (p : Path) : p.textWith id = p.text := by
  cases p <;> rfl

section Styles

variable {cs rest : List Char} {s : PathStep} {p : Path}

theorem shown_append (noEscape : '\x1b' ∉ cs) :
    shown false (cs ++ rest) = cs ++ shown false rest := by
  induction cs with
  | nil => rfl
  | cons c cs ih =>
    rw [List.mem_cons, not_or] at noEscape
    rw [List.cons_append, shown, if_neg Bool.false_ne_true, if_neg (Ne.symm noEscape.1),
      ih noEscape.2]
    rfl

theorem shown_bold {text : String} (noEscape : '\x1b' ∉ text.toList) :
    shown false (bold text).toList = text.toList := by
  have on (cs : List Char) :
      shown false ("\x1b[".toList ++ ((toString 1).toList ++ ("m".toList ++ cs))) =
        shown false cs := rfl
  have off : shown false ("\x1b[".toList ++ ((toString 0).toList ++ "m".toList)) = [] := rfl
  simp only [bold, styled, String.toList_append, List.append_assoc]
  rw [on, shown_append noEscape, off, List.append_nil]

/-- Without its styles a path is its text, though its last step is bold. -/
theorem Path.unstyled_textWith (plain : p.Plain) : unstyled (p.textWith bold) = p.text := by
  have noEscape {text : String} (characters : ∀ c ∈ text.toList, isPathChar c = true) :
      '\x1b' ∉ text.toList :=
    fun member => absurd (characters _ member) (by decide)
  have last {s : PathStep} (plain : s.Plain) : shown false (bold s.text).toList = s.text.toList :=
    shown_bold (noEscape (s.isPathChar_text plain))
  rw [unstyled, ← String.toList_inj, String.toList_ofList]
  cases p with
  | root s => exact last plain
  | child above s =>
    obtain ⟨plainAbove, plainStep⟩ := plain
    have sign : '\x1b' ∉ " > ".toList := by decide
    rw [textWith, text, String.toList_append, String.toList_append, List.append_assoc,
      shown_append (noEscape (above.isPathChar_text plainAbove)), shown_append sign, last plainStep,
      String.toList_append, String.toList_append, List.append_assoc]

end Styles

end CommandLine

end Selectors
