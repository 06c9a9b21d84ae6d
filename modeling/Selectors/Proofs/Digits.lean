import Selectors.Decimal

/-!
Numbers written in digits. Reading the digits of a number from the left gives the number back,
in every base and with any reading that knows the single digits (`foldl_toDigits`). Decimal digits
are read so in numbers, hexadecimal ones in escapes.
-/

namespace Selectors

section Bases

variable {base : Nat} (large : 1 < base)
include large

/-- Every digit of a number is the character of a number below the base. -/
theorem exists_of_mem_toDigits {n : Nat} {c : Char} (member : c ∈ Nat.toDigits base n) :
    ∃ d < base, c = d.digitChar := by
  induction n using Nat.strongRecOn with
  | ind n ih =>
    rw [Nat.toDigits_eq_if large] at member
    split at member
    · rename_i single
      exact ⟨n, single, List.mem_singleton.1 member⟩
    · rename_i several
      rcases List.mem_append.1 member with inFront | last
      · exact ih (n / base) (Nat.div_lt_self (by omega) large) inFront
      · exact ⟨n % base, Nat.mod_lt n (by omega), List.mem_singleton.1 last⟩

/-- A reading that knows the single digits reads every number. -/
theorem foldl_toDigits {value : Char → Nat} (reads : ∀ d < base, value d.digitChar = d) (n : Nat) :
    (Nat.toDigits base n).foldl (fun m c => m * base + value c) 0 = n := by
  induction n using Nat.strongRecOn with
  | ind n ih =>
    rw [Nat.toDigits_eq_if large]
    split
    · rename_i single
      rw [List.foldl_cons, List.foldl_nil, reads n single, Nat.zero_mul, Nat.zero_add]
    · rename_i several
      rw [List.foldl_append, ih (n / base) (Nat.div_lt_self (by omega) large), List.foldl_cons,
        List.foldl_nil, reads _ (Nat.mod_lt n (by omega)), Nat.div_add_mod']

end Bases

/-! ## Decimal digits -/

theorem digitsValue_toDigits (n : Nat) : digitsValue (Nat.toDigits 10 n) = n :=
  foldl_toDigits (by decide) (fun _ small => Nat.toNat_digitChar_sub_48_of_lt_ten small) n

theorem isDigit_of_mem_toDigits {n : Nat} {c : Char} (member : c ∈ Nat.toDigits 10 n) :
    c.isDigit = true :=
  Nat.isDigit_of_mem_toDigits (by decide) (by decide) member

theorem toLower_of_isDigit {c : Char} (digit : c.isDigit = true) : c.toLower = c := by
  have small : c.val ≤ '9'.val := by
    simp only [Char.isDigit, Bool.and_eq_true, decide_eq_true_eq] at digit
    exact digit.2
  exact dif_neg fun upper => absurd (UInt32.le_trans upper.1 small) (by decide)

/-- An integer is written as its digits, with a hyphen in front if it is negative. -/
theorem toList_toString_int (i : Int) :
    (toString i).toList =
      (if i < 0 then ['-'] else []) ++ Nat.toDigits 10 i.natAbs := by
  cases i with
  | ofNat n => simp [toString, Int.repr]
  | negSucc n => simp [toString, Int.repr]

end Selectors
