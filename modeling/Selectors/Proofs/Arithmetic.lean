import Mathlib.Algebra.Order.Ring.Int
import Selectors.AnPlusB

/-!
The arithmetic of counting. Steps and offsets are integers of 64 bits and positions are natural
numbers below `2 ^ 64`, but distances between them need a little more: up to 66 bits.

`AnPlusB.selects128?` decides as `AnPlusB.selects` does, in integers of 128 bits, and gives up as
soon as a value on the way does not fit. `AnPlusB.selects_exact` says that it never gives up and
always decides rightly, for every step, every offset and every position.
-/

namespace Selectors

/-- The integer itself, if 128 bits hold it. -/
def int128? (n : Int) : Option Int :=
  if -2 ^ 127 ≤ n ∧ n < 2 ^ 127 then some n else none

/-- An integer that is no farther from zero than `2 ^ 66` is far from the limits. -/
theorem int128?_eq_some {n : Int} (near : n.natAbs ≤ 2 ^ 66) : int128? n = some n := by
  unfold int128?
  exact if_pos (by omega)

namespace AnPlusB

/-- Whether the position with `before` positions in front of it is named, worked out in 128 bits.
The quotient is looked at even where the remainder decides, so that a division that overflows
would be seen. -/
def selects128? (p : AnPlusB) (before : UInt64) : Option Bool := do
  let step ← int128? p.step.toInt
  let place ← int128? before.toNat
  let offset ← int128? p.offset.toInt
  let first ← int128? (offset - 1)
  let distance ← int128? (place - first)
  if step = 0 then
    return distance == 0
  else
    let remainder ← int128? (distance % step)
    let quotient ← int128? (distance / step)
    return remainder == 0 && 0 ≤ quotient

/-! ## Bounds -/

variable (p : AnPlusB) (before : UInt64)

theorem natAbs_toInt_le (i : Int64) : i.toInt.natAbs ≤ 2 ^ 63 := by
  have low := Int64.le_toInt i
  have high := Int64.toInt_lt i
  omega

/-- The offset can lie at one end of its range and the position at the other end. -/
theorem natAbs_distance_le : (p.distance before.toNat).natAbs ≤ 2 ^ 64 + 2 ^ 63 := by
  have low := Int64.le_toInt p.offset
  have high := Int64.toInt_lt p.offset
  have below := UInt64.toNat_lt before
  unfold distance
  omega

/-- The bound is met: the last position lies that far behind the least offset. -/
example : (⟨1, Int64.minValue⟩ : AnPlusB).distance (2 ^ 64 - 1) = 2 ^ 64 + 2 ^ 63 := by decide

/-- A remainder is smaller than the step, whatever the signs are. -/
theorem natAbs_emod_step_le (distance : Int) (moves : p.step.toInt ≠ 0) :
    (distance % p.step.toInt).natAbs ≤ 2 ^ 63 := by
  have nonneg := Int.emod_nonneg distance moves
  have below := Int.emod_lt distance moves
  have size := natAbs_toInt_le p.step
  omega

/-! ## Deciding in 128 bits -/

/-- No value on the way leaves the 128 bits, so nothing is lost against unbounded integers. -/
theorem selects128?_eq_some : p.selects128? before = some (p.selects before.toNat) := by
  have step := natAbs_toInt_le p.step
  have offset := natAbs_toInt_le p.offset
  have place := UInt64.toNat_lt before
  have distance := natAbs_distance_le p before
  have quotient := Int.natAbs_ediv_le_natAbs (p.distance before.toNat) p.step.toInt
  have difference : (before.toNat : Int) - (p.offset.toInt - 1) = p.distance before.toNat := rfl
  unfold selects128? selects
  rw [int128?_eq_some (by omega), int128?_eq_some (by omega), int128?_eq_some (by omega)]
  simp only [Option.bind_eq_bind, Option.bind_some, Option.pure_def]
  rw [int128?_eq_some (by omega), Option.bind_some, difference, int128?_eq_some (by omega),
    Option.bind_some]
  by_cases still : p.step.toInt = 0
  · rw [if_pos still, if_pos still]
  · have remainder := natAbs_emod_step_le p (p.distance before.toNat) still
    rw [if_neg still, if_neg still, int128?_eq_some (by omega), Option.bind_some,
      int128?_eq_some (by omega), Option.bind_some]

/-- **Counting is exact at every limit.** For every step, offset and position of 64 bits, a position
is selected exactly if it is reached from the offset in some number of steps, counted in unbounded
integers; and working it out takes no value that 128 bits do not hold. -/
theorem selects_exact :
    (p.selects before.toNat = true ↔
      ∃ n : Int, 0 ≤ n ∧ (before.toNat : Int) = p.step.toInt * n + (p.offset.toInt - 1)) ∧
    p.selects128? before = some (p.selects before.toNat) := by
  refine ⟨selects_iff.trans ⟨?_, ?_⟩, selects128?_eq_some p before⟩
  · intro ⟨n, reached⟩
    exact ⟨n, Int.natCast_nonneg n, reached⟩
  · intro ⟨n, nonneg, reached⟩
    refine ⟨n.toNat, ?_⟩
    rw [Int.toNat_of_nonneg nonneg]
    exact reached

end AnPlusB

end Selectors
