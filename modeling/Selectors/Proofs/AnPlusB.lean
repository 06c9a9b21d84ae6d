import Selectors.AnPlusB.Parser
import Selectors.Proofs.Grammar

/-!
The notation of `An+B`, over tokens. `AnPlusB.Spells` says which tokens spell a value:

    value   = 'odd' | 'even' | integer | step offset
    step    = integer 'n' | 'n' | '-n' | '+' 'n'
    offset  = nothing | signed | ('+' | '-') plain | '-' plain | '-' digits

Letters count without their case, and blanks may stand everywhere but between the plus sign and the
`n`. A hyphen can be written on to the `n`, and behind it digits; then they are part of the token of
the `n`, so both relations carry what is written on to it.

`AnPlusB.parse?` reads exactly the tokens that spell a value (`parse?_eq_some_iff_spells`). The only
thing asked of the tokens is that a number without a sign is not negative.
-/

namespace Selectors

namespace AnPlusB

open Grammar (Blanks)

/-! ## The grammar -/

/-- The `n` of a value with its step. `suffix` is what is written on to the `n`. -/
inductive SpellsStep (suffix : List Char) : List Token → Int64 → Prop
  | dimension {n : Numeric} {unit : String} {a : Int64} :
    n.integer? = some a → unit.toLower.toList = 'n' :: suffix →
    SpellsStep suffix [.dimension n unit] a
  | ident {name : String} :
    name.toLower.toList = 'n' :: suffix → SpellsStep suffix [.ident name] 1
  | minus {name : String} :
    name.toLower.toList = '-' :: 'n' :: suffix → SpellsStep suffix [.ident name] (-1)
  | plus {name : String} :
    name.toLower.toList = 'n' :: suffix → SpellsStep suffix [.delim '+', .ident name] 1

/-- One integer that is written without a sign. -/
inductive SpellsPlain : List Token → Int64 → Prop
  | mk {n : Numeric} {b : Int64} :
    n.signed = false → n.integer? = some b → SpellsPlain [.number n] b

/-- What follows the `n` of a value: characters written on to it, and tokens. -/
inductive SpellsOffset : List Char → List Token → Int → Prop
  | missing : SpellsOffset [] [] 0
  | signed {n : Numeric} {b : Int64} :
    n.signed = true → n.integer? = some b → SpellsOffset [] [.number n] b.toInt
  | plus {rest : List Token} {b : Int64} :
    SpellsPlain rest b → SpellsOffset [] (.delim '+' :: rest) b.toInt
  | minus {rest : List Token} {b : Int64} :
    SpellsPlain rest b → SpellsOffset [] (.delim '-' :: rest) (-b.toInt)
  | hyphen {rest : List Token} {b : Int64} :
    SpellsPlain rest b → SpellsOffset ['-'] rest (-b.toInt)
  | digits {digits : List Char} :
    digits ≠ [] → (∀ c ∈ digits, c.isDigit = true) →
    (digitsValue digits : Int) ≤ Int64.maxValue.toInt →
    SpellsOffset ('-' :: digits) [] (-digitsValue digits)

/-- The tokens spell a value, with any blanks between its parts. -/
inductive Spells : List Token → AnPlusB → Prop
  | blank {tokens : List Token} {p : AnPlusB} : Spells tokens p → Spells (.blank :: tokens) p
  | odd {name : String} {back : List Token} :
    name.toLower = "odd" → Blanks back → Spells (.ident name :: back) ⟨2, 1⟩
  | even {name : String} {back : List Token} :
    name.toLower = "even" → Blanks back → Spells (.ident name :: back) ⟨2, 0⟩
  | integer {n : Numeric} {b : Int64} {back : List Token} :
    n.integer? = some b → Blanks back → Spells (.number n :: back) ⟨0, b⟩
  | stepped {step back : List Token} {suffix : List Char} {p : AnPlusB} :
    SpellsStep suffix step p.step → SpellsOffset suffix (solid back) p.offset.toInt →
    Spells (step ++ back) p

/-- Numbers without a sign are not negative. -/
def Natural (tokens : List Token) : Prop :=
  ∀ n, .number n ∈ tokens → n.signed = false → ∀ b, n.integer? = some b → 0 ≤ b.toInt

/-! ## Integers -/

theorem eq_mk_iff {p : AnPlusB} {a b : Int64} :
    p = ⟨a, b⟩ ↔ p.step = a ∧ p.offset.toInt = b.toInt := by
  rw [Int64.toInt_inj]
  cases p
  rw [AnPlusB.mk.injEq]

/-- Only the least integer is not negated by a change of its sign. -/
theorem toInt_neg_of_ne {b : Int64} (notLeast : b ≠ Int64.minValue) : (-b).toInt = -b.toInt := by
  have least : Int64.minValue.toInt = -2 ^ 63 := rfl
  have above : Int64.minValue.toInt ≠ b.toInt := fun same =>
    notLeast (Int64.toInt_inj.1 same.symm)
  have atLeast := Int64.minValue_le_toInt b
  have below := Int64.toInt_lt b
  rw [Int64.toInt_neg]
  exact Int.bmod_eq_of_le (by omega) (by omega)

/-- Negating an integer that is not negative stays within 64 bits. -/
theorem toInt_neg_of_nonneg {b : Int64} (nonneg : 0 ≤ b.toInt) : (-b).toInt = -b.toInt := by
  refine toInt_neg_of_ne ?_
  rintro rfl
  exact absurd nonneg (by decide)

/-! ## Behind the `n` -/

section Offsets

variable {step : Int64} {digits suffix unit : List Char} {rest : List Token} {p : AnPlusB}

/-- The digits behind a hyphen have to fit 64 bits without the hyphen. -/
theorem dashOffset?_eq_some_iff {b : Int64} :
    dashOffset? ('n' :: '-' :: digits) = some b ↔ SpellsOffset ('-' :: digits) [] b.toInt := by
  have written : (!digits.isEmpty && digits.all Char.isDigit) = true ↔
      digits ≠ [] ∧ ∀ c ∈ digits, c.isDigit = true := by
    simp
  have nonneg : 0 ≤ (digitsValue digits : Int) := Int.natCast_nonneg _
  rw [dashOffset?, Option.ite_none_right_eq_some, written, Option.map_eq_some_iff]
  constructor
  · rintro ⟨⟨full, all⟩, value, found, rfl⟩
    have same := int64?_eq_some_iff.1 found
    rw [toInt_neg_of_nonneg (same ▸ nonneg), same]
    exact .digits full all (same ▸ Int64.toInt_le value)
  · intro spells
    generalize offset : b.toInt = i at spells
    cases spells with
    | hyphen plain => cases plain
    | digits full all fits =>
      have value : (Int64.ofInt (digitsValue digits)).toInt = digitsValue digits :=
        Int64.toInt_ofInt_of_le (by omega) (Int.lt_of_le_of_lt fits (by decide))
      refine ⟨⟨full, all⟩, _, int64?_eq_some_iff.2 value, Int64.toInt_inj.1 ?_⟩
      rw [toInt_neg_of_nonneg (value.symm ▸ nonneg), value, offset]

theorem exists_digits_of_dashOffset? {b : Int64} (found : dashOffset? unit = some b) :
    ∃ digits, unit = 'n' :: '-' :: digits := by
  unfold dashOffset? at found
  split at found
  · exact ⟨_, rfl⟩
  · cases found

/-- Whatever is written on to it, a unit starts with the `n`. -/
theorem exists_suffix_of_withStep (found : withStep step unit rest = some p) :
    ∃ suffix, unit = 'n' :: suffix := by
  unfold withStep at found
  split at found
  · exact ⟨_, rfl⟩
  · exact ⟨_, rfl⟩
  · obtain ⟨_, read⟩ := Option.ite_none_right_eq_some.1 found
    obtain ⟨b, offset, _⟩ := Option.map_eq_some_iff.1 read
    obtain ⟨digits, same⟩ := exists_digits_of_dashOffset? offset
    exact ⟨_, same⟩

variable (natural : Natural rest)
include natural

/-- After a sign that stands apart, the offset is what the number says, or that negated. -/
theorem afterSign_eq_some_iff {minus : Bool} :
    afterSign step minus rest = some p ↔ p.step = step ∧
      ∃ b, SpellsPlain rest b ∧ p.offset.toInt = if minus then -b.toInt else b.toInt := by
  have offset {n : Numeric} {b : Int64} (found : .number n ∈ rest) (plain : n.signed = false)
      (value : n.integer? = some b) :
      p = ⟨step, if minus then -b else b⟩ ↔
        p.step = step ∧ p.offset.toInt = if minus then -b.toInt else b.toInt := by
    rw [eq_mk_iff, ← toInt_neg_of_nonneg (natural n found plain b value), apply_ite Int64.toInt]
  unfold afterSign
  split
  · rename_i n
    have found : Token.number n ∈ [Token.number n] := List.mem_singleton_self _
    rw [Option.ite_none_left_eq_some, Option.map_eq_some_iff, Bool.not_eq_true]
    constructor
    · rintro ⟨plain, b, value, same⟩
      obtain ⟨sameStep, sameOffset⟩ := (offset found plain value).1 same.symm
      exact ⟨sameStep, b, .mk plain value, sameOffset⟩
    · rintro ⟨sameStep, b, ⟨plain, value⟩, sameOffset⟩
      exact ⟨plain, b, value, ((offset found plain value).2 ⟨sameStep, sameOffset⟩).symm⟩
  · rename_i other
    constructor
    · nofun
    · rintro ⟨_, b, ⟨_, _⟩, _⟩
      exact absurd rfl (other _)

end Offsets

section Units

variable {step : Int64} {suffix unit : List Char} {rest : List Token} {p : AnPlusB}
  (natural : Natural rest)
include natural

theorem afterN_eq_some_iff :
    afterN step rest = some p ↔ p.step = step ∧ SpellsOffset [] rest p.offset.toInt := by
  have tail {token : Token} {more : List Token} (natural : Natural (token :: more)) :
      Natural more := fun n member => natural n (List.mem_cons_of_mem _ member)
  unfold afterN
  split
  · rw [Option.some.injEq, eq_comm, eq_mk_iff]
    refine and_congr_right fun _ => ?_
    constructor
    · rintro same
      exact same ▸ .missing
    · generalize p.offset.toInt = i
      rintro ⟨⟩
      rfl
  · rw [afterSign_eq_some_iff (tail natural)]
    refine and_congr_right fun _ => ?_
    generalize p.offset.toInt = i
    constructor
    · rintro ⟨b, plain, rfl⟩
      exact .plus plain
    · rintro (_ | _ | ⟨plain⟩)
      exact ⟨_, plain, rfl⟩
  · rw [afterSign_eq_some_iff (tail natural)]
    refine and_congr_right fun _ => ?_
    generalize p.offset.toInt = i
    constructor
    · rintro ⟨b, plain, rfl⟩
      exact .minus plain
    · rintro (_ | _ | _ | ⟨plain⟩)
      exact ⟨_, plain, rfl⟩
  · rename_i n
    rw [Option.ite_none_right_eq_some, Option.map_eq_some_iff]
    generalize offset : p.offset.toInt = i
    constructor
    · rintro ⟨signed, b, value, rfl⟩
      exact ⟨rfl, offset ▸ .signed signed value⟩
    · rintro ⟨sameStep, spells⟩
      cases spells with
      | @signed _ b signed value =>
        exact ⟨signed, b, value, (eq_mk_iff.2 ⟨sameStep, offset⟩).symm⟩
  · rename_i notNil notPlus notMinus notNumber
    generalize p.offset.toInt = i
    constructor
    · nofun
    · rintro ⟨_, spells⟩
      cases spells with
      | missing => exact absurd rfl notNil
      | signed => exact absurd rfl (notNumber _)
      | plus => exact absurd rfl (notPlus _)
      | minus => exact absurd rfl (notMinus _)

/-- What is written on to the `n` decides how the tokens behind it are read. -/
theorem withStep_eq_some_iff :
    withStep step ('n' :: suffix) rest = some p ↔
      p.step = step ∧ SpellsOffset suffix rest p.offset.toInt := by
  unfold withStep
  split
  · rename_i same
    rw [(List.cons.inj same).2]
    exact afterN_eq_some_iff natural
  · rename_i same
    rw [(List.cons.inj same).2, afterSign_eq_some_iff natural]
    refine and_congr_right fun _ => ?_
    generalize p.offset.toInt = i
    constructor
    · rintro ⟨b, plain, rfl⟩
      exact .hyphen plain
    · intro spells
      cases spells with
      | hyphen plain => exact ⟨_, plain, rfl⟩
      | digits full => exact absurd rfl full
  · rename_i notN notHyphen
    rw [Option.ite_none_right_eq_some, List.isEmpty_iff, Option.map_eq_some_iff]
    constructor
    · rintro ⟨rfl, b, found, rfl⟩
      obtain ⟨digits, same⟩ := exists_digits_of_dashOffset? found
      rw [same] at found
      rw [(List.cons.inj same).2]
      exact ⟨rfl, dashOffset?_eq_some_iff.1 found⟩
    · rintro ⟨rfl, spells⟩
      generalize offset : p.offset.toInt = i at spells
      cases spells with
      | missing | signed | plus | minus => exact absurd rfl notN
      | hyphen => exact absurd rfl notHyphen
      | digits full all fits =>
        exact ⟨rfl, p.offset, dashOffset?_eq_some_iff.2 (offset ▸ .digits full all fits), rfl⟩

end Units

/-! ## Whole values -/

section Values

variable {tokens rest : List Token} {token : Token} {name : String} {p : AnPlusB}

theorem solid_eq_nil_iff : solid tokens = [] ↔ Blanks tokens := by
  simp [solid, Blanks]

theorem natural_solid_tail (natural : Natural (token :: rest)) : Natural (solid rest) :=
  fun n member => natural n (List.mem_cons_of_mem _ (List.mem_filter.1 member).1)

theorem parse?_number (n : Numeric) (rest : List Token) : parse? (.number n :: rest) =
    if (solid rest).isEmpty then n.integer?.map fun b => ⟨0, b⟩ else none := rfl

theorem parse?_dimension (n : Numeric) (unit : String) (rest : List Token) :
    parse? (.dimension n unit :: rest) =
      n.integer?.bind fun a => withStep a unit.toLower.toList (solid rest) := rfl

theorem parse?_ident (name : String) (rest : List Token) :
    parse? (.ident name :: rest) = ofIdent name.toLower.toList (solid rest) := rfl

theorem parse?_plus (name : String) (rest : List Token) :
    parse? (.delim '+' :: .ident name :: rest) =
      withStep 1 name.toLower.toList (solid rest) := rfl

/-- A plus sign counts only right in front of an identifier. -/
theorem exists_ident_of_parse?_delim {c : Char} (found : parse? (.delim c :: rest) = some p) :
    ∃ name more, c = '+' ∧ rest = .ident name :: more := by
  have first : skipBlanks (.delim c :: rest) = .delim c :: rest := rfl
  unfold parse? at found
  rw [first] at found
  split at found <;> rename_i same
  · cases same
  · cases same
  · cases same
  · cases same
    exact ⟨_, _, rfl, rfl⟩
  · cases found

/-- An identifier is a keyword that stands alone, or starts with the `n`. -/
theorem spells_of_ofIdent (natural : Natural (solid rest))
    (found : ofIdent name.toLower.toList (solid rest) = some p) :
    Spells (.ident name :: rest) p := by
  unfold ofIdent at found
  split at found
  · rename_i written
    obtain ⟨alone, same⟩ := Option.ite_none_right_eq_some.1 found
    rw [List.isEmpty_iff, solid_eq_nil_iff] at alone
    rw [← Option.some.inj same]
    exact .even (String.toList_inj.1 written) alone
  · rename_i written
    obtain ⟨alone, same⟩ := Option.ite_none_right_eq_some.1 found
    rw [List.isEmpty_iff, solid_eq_nil_iff] at alone
    rw [← Option.some.inj same]
    exact .odd (String.toList_inj.1 written) alone
  · rename_i unit written
    obtain ⟨suffix, rfl⟩ := exists_suffix_of_withStep found
    obtain ⟨step, offset⟩ := (withStep_eq_some_iff natural).1 found
    exact @Spells.stepped [_] _ _ _ (step ▸ .minus written) offset
  · obtain ⟨suffix, written⟩ := exists_suffix_of_withStep found
    rw [written] at found
    obtain ⟨step, offset⟩ := (withStep_eq_some_iff natural).1 found
    exact @Spells.stepped [_] _ _ _ (step ▸ .ident written) offset

theorem spells_of_parse? (natural : Natural tokens) (found : parse? tokens = some p) :
    Spells tokens p := by
  induction tokens with
  | nil => cases found
  | cons token rest ih =>
    have behind := natural_solid_tail natural
    cases token with
    | blank => exact .blank (ih (fun n member => natural n (List.mem_cons_of_mem _ member)) found)
    | number n =>
      rw [parse?_number] at found
      obtain ⟨alone, read⟩ := Option.ite_none_right_eq_some.1 found
      obtain ⟨b, value, rfl⟩ := Option.map_eq_some_iff.1 read
      exact .integer value (solid_eq_nil_iff.1 (List.isEmpty_iff.1 alone))
    | dimension n unit =>
      rw [parse?_dimension] at found
      obtain ⟨a, value, read⟩ := Option.bind_eq_some_iff.1 found
      obtain ⟨suffix, written⟩ := exists_suffix_of_withStep read
      rw [written] at read
      obtain ⟨step, offset⟩ := (withStep_eq_some_iff behind).1 read
      exact @Spells.stepped [_] _ _ _ (step ▸ .dimension value written) offset
    | ident name => exact spells_of_ofIdent behind found
    | delim c =>
      obtain ⟨name, more, rfl, rfl⟩ := exists_ident_of_parse?_delim found
      have natural : Natural (solid more) := fun n member =>
        behind n (List.mem_cons_of_mem _ member)
      rw [parse?_plus] at found
      obtain ⟨suffix, written⟩ := exists_suffix_of_withStep found
      rw [written] at found
      obtain ⟨step, offset⟩ := (withStep_eq_some_iff natural).1 found
      exact @Spells.stepped [_, _] _ _ _ (step ▸ .plus written) offset
    | _ => cases found

theorem parse?_of_spells (natural : Natural tokens) (spells : Spells tokens p) :
    parse? tokens = some p := by
  induction spells with
  | blank _ ih => exact ih fun n member => natural n (List.mem_cons_of_mem _ member)
  | odd written alone =>
    rw [parse?_ident, written, solid_eq_nil_iff.2 alone]
    rfl
  | even written alone =>
    rw [parse?_ident, written, solid_eq_nil_iff.2 alone]
    rfl
  | integer value alone =>
    rw [parse?_number, solid_eq_nil_iff.2 alone, value]
    rfl
  | @stepped step back suffix p spelled offset =>
    have natural : Natural (solid back) := fun n member =>
      natural n (List.mem_append_right _ (List.mem_filter.1 member).1)
    have behind {a : Int64} (same : p.step = a) :
        withStep a ('n' :: suffix) (solid back) = some p :=
      (withStep_eq_some_iff natural).2 ⟨same, offset⟩
    generalize same : p.step = a at spelled
    cases spelled with
    | dimension value written =>
      rw [List.singleton_append, parse?_dimension, value, written]
      exact behind same
    | ident written =>
      rw [List.singleton_append, parse?_ident, written]
      exact behind same
    | minus written =>
      rw [List.singleton_append, parse?_ident, written]
      exact behind same
    | plus written =>
      rw [List.cons_append, List.singleton_append, parse?_plus, written]
      exact behind same

/-- Every value is spelled somehow. -/
theorem exists_parse?_eq_some (p : AnPlusB) : ∃ tokens, parse? tokens = some p := by
  let step : Token := .dimension ⟨⟨false, 0, 0⟩, some p.step, false⟩ "n"
  let offset : Token := .number ⟨⟨false, 0, 0⟩, some p.offset, true⟩
  have natural : Natural [step, offset] := by simp [Natural, step, offset]
  have spelledStep : SpellsStep [] [step] p.step := .dimension rfl (by decide +kernel)
  have spelledOffset : SpellsOffset [] (solid [offset]) p.offset.toInt := .signed rfl rfl
  exact ⟨_, parse?_of_spells natural (.stepped spelledStep spelledOffset)⟩

/-- **A list of tokens is read exactly if it spells a value**, and then that value is read. -/
theorem parse?_eq_some_iff_spells (natural : Natural tokens) :
    parse? tokens = some p ↔ Spells tokens p :=
  ⟨spells_of_parse? natural, parse?_of_spells natural⟩

/-- The text ` +N- 3` spells a value. With a blank between the plus sign and the letter nothing is
spelled. -/
theorem spells_plus_n_hyphen_three :
    let three : Numeric := ⟨⟨false, 3, 0⟩, some 3, false⟩
    let written : List Token := [.blank, .delim '+', .ident "N-", .blank, .number three]
    let apart : List Token := [.delim '+', .blank, .ident "n"]
    Natural written ∧ Spells written ⟨1, -3⟩ ∧ Natural apart ∧ ¬ Spells apart ⟨1, 0⟩ := by
  intro three written apart
  have natural : Natural written := by simp [Natural, written, three]
  have naturalApart : Natural apart := by simp [Natural, apart]
  refine ⟨natural, (parse?_eq_some_iff_spells natural).1 (by decide +kernel), naturalApart, ?_⟩
  exact fun spells => absurd ((parse?_eq_some_iff_spells naturalApart).2 spells) (by decide +kernel)

end Values

end AnPlusB

end Selectors
