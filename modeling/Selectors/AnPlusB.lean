/-!
The `An+B` values of the counting pseudo-classes. A value names the positions `A·n + B` for
`n = 0, 1, 2, …`, where the first position is 1.

`AnPlusB.selects` decides whether a position, counted from zero, is one of them;
`AnPlusB.selects_iff` says that it decides exactly that.
-/

namespace Selectors

/-- A step and an offset, both integers of 64 bits. -/
structure AnPlusB : Type where
  step : Int64
  offset : Int64
deriving DecidableEq

namespace AnPlusB

/-- How far the position with `before` positions in front of it lies behind the offset. -/
def distance (p : AnPlusB) (before : Nat) : Int := before - (p.offset.toInt - 1)

/-- Whether the position with `before` positions in front of it is named: its distance is a
multiple of the step, and not on the other side of the offset. -/
def selects (p : AnPlusB) (before : Nat) : Bool :=
  if p.step.toInt = 0 then p.distance before == 0
  else p.distance before % p.step.toInt == 0 && 0 ≤ p.distance before / p.step.toInt

/-- A position is selected exactly if it is reached from the offset in some number of steps. -/
theorem selects_iff {p : AnPlusB} {before : Nat} :
    p.selects before = true ↔
      ∃ n : Nat, (before : Int) = p.step.toInt * n + (p.offset.toInt - 1) := by
  unfold selects distance
  by_cases h : p.step.toInt = 0
  · simp only [h, if_true, beq_iff_eq, Int.zero_mul, exists_const]
    omega
  · simp only [h, if_false, Bool.and_eq_true, beq_iff_eq, decide_eq_true_eq]
    constructor
    · rintro ⟨hmod, hdiv⟩
      refine ⟨(((before : Int) - (p.offset.toInt - 1)) / p.step.toInt).toNat, ?_⟩
      rw [Int.toNat_of_nonneg hdiv, Int.mul_ediv_cancel' (Int.dvd_of_emod_eq_zero hmod)]
      omega
    · rintro ⟨n, hn⟩
      have : (before : Int) - (p.offset.toInt - 1) = p.step.toInt * n := by omega
      rw [this, Int.mul_emod_right, Int.mul_ediv_cancel_left _ h]
      exact ⟨rfl, Int.natCast_nonneg n⟩

end AnPlusB

end Selectors
