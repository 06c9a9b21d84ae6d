/-!
Specificity: how many identifiers, how many classes, attributes and pseudo-classes, and how many
type names and pseudo-elements a selector is written with. The three counts are added one by one
and compared in this order, the first difference deciding.
-/

namespace Selectors

/-- The three counts, the most weighty first. They are natural numbers: overflow of a count beyond
32 bits is left aside. -/
@[ext]
structure Specificity : Type where
  ids : Nat
  classes : Nat
  types : Nat
deriving DecidableEq, Repr, Inhabited

namespace Specificity

/-- Nothing counted. -/
def zero : Specificity := ⟨0, 0, 0⟩

/-- Counts of two parts together. -/
def add (s t : Specificity) : Specificity :=
  ⟨s.ids + t.ids, s.classes + t.classes, s.types + t.types⟩

instance : Add Specificity := ⟨add⟩

theorem add_def (s t : Specificity) :
    s + t = ⟨s.ids + t.ids, s.classes + t.classes, s.types + t.types⟩ := rfl

/-- Whether a specificity is at most another one, the counts compared in order. -/
def le (s t : Specificity) : Bool :=
  s.ids < t.ids ||
    (s.ids == t.ids && (s.classes < t.classes || (s.classes == t.classes && s.types ≤ t.types)))

theorem le_iff {s t : Specificity} :
    s.le t = true ↔
      s.ids < t.ids ∨
        (s.ids = t.ids ∧ (s.classes < t.classes ∨ (s.classes = t.classes ∧ s.types ≤ t.types))) := by
  simp [le]

theorem le_total (s t : Specificity) : (s.le t || t.le s) = true := by
  rw [Bool.or_eq_true, le_iff, le_iff]
  omega

theorem le_trans {s t u : Specificity} (h : s.le t = true) (k : t.le u = true) :
    s.le u = true := by
  rw [le_iff] at *
  omega

theorem le_antisymm {s t : Specificity} (h : s.le t = true) (k : t.le s = true) : s = t := by
  rw [le_iff] at h k
  ext <;> omega

/-- The counts in parentheses. -/
def text (s : Specificity) : String :=
  "(" ++ toString s.ids ++ ", " ++ toString s.classes ++ ", " ++ toString s.types ++ ")"

/-- Specificities in ascending order. -/
def sorted (items : List Specificity) : List Specificity := items.mergeSort le

/-- The counts of several parts together. -/
def sum (items : List Specificity) : Specificity := items.foldl (· + ·) zero

end Specificity

end Selectors
