/-!
Integers of 64 bits, the range in which the numbers of a selector are held. A written integer
outside the range is no integer at all.
-/

namespace Selectors

/-- The 64-bit integer with the given value, if there is one. -/
def int64? (n : Int) : Option Int64 :=
  if Int64.minValue.toInt ≤ n ∧ n ≤ Int64.maxValue.toInt then some (Int64.ofInt n) else none

/-- A 64-bit integer is found exactly under its own value. -/
theorem int64?_eq_some_iff {n : Int} {i : Int64} : int64? n = some i ↔ i.toInt = n := by
  unfold int64?
  split
  · rename_i hn
    constructor
    · intro h
      cases h
      exact Int64.toInt_ofInt_of_le hn.1 (Int.lt_of_le_of_lt hn.2 (by decide))
    · intro h
      rw [← h, Int64.ofInt_toInt]
  · rename_i hn
    constructor
    · intro h
      cases h
    · intro h
      exact absurd (h ▸ ⟨Int64.minValue_le_toInt i, Int64.toInt_le i⟩) hn

end Selectors
