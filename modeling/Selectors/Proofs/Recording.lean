import Mathlib.Data.List.Induction
import Selectors.Warnings

/-!
What the recorded warnings answer. A warning is recorded under one text, made of its component and
its message, so a question is answered by every warning with the same text since the last clearing
(`has_after_iff_key`). Two warnings have one text exactly if they are equal or a piece with the
separator in it can be taken for the end of the one component or for the start of the other message
(`Warning.key_eq_key_iff`).

So the answers are exact as long as no component holds the separator (`has_after_iff`), and else
warnings answer for one another.
-/

namespace Selectors

/-! ## Texts of warnings -/

namespace Warning

/-- What stands between the component and the message. -/
def separator : String := "] "

/-- The component of the second warning goes on where the one of the first ends, and the message of
the first makes up for it. -/
def Overlaps (v w : Warning) : Prop :=
  ∃ piece, w.component = v.component ++ separator ++ piece ∧
    v.message = piece ++ separator ++ w.message

/-- The separator stands nowhere in a component. -/
def Apart (w : Warning) : Prop := ∀ front back, w.component ≠ front ++ separator ++ back

/-- Where two texts with a separator in them are equal and the first one is parted earlier. -/
theorem exists_piece {front front' back back' : List Char}
    (same : front ++ ']' :: ' ' :: back = front' ++ ']' :: ' ' :: back')
    (longer : front.length ≤ front'.length) :
    (front = front' ∧ back = back') ∨
      ∃ piece, front' = front ++ ']' :: ' ' :: piece ∧ back = piece ++ ']' :: ' ' :: back' := by
  rcases List.append_eq_append_iff.1 same with ⟨more, rfl, parts⟩ | ⟨more, rfl, parts⟩
  · -- the rest of the longer front is nothing, or it starts with a whole separator
    rcases more with _ | ⟨c, _ | ⟨d, piece⟩⟩
    · cases parts
      exact Or.inl ⟨(List.append_nil front).symm, rfl⟩
    · cases parts
    · cases parts
      exact Or.inr ⟨piece, rfl, rfl⟩
  · obtain rfl : more = [] := by
      rw [List.length_append] at longer
      exact List.length_eq_zero_iff.1 (by omega)
    cases parts
    exact Or.inl ⟨List.append_nil front', rfl⟩

theorem toList_key (w : Warning) :
    w.key.toList = '[' :: (w.component.toList ++ ']' :: ' ' :: w.message.toList) := by
  simp [key]

theorem overlaps_iff {v w : Warning} : v.Overlaps w ↔
    ∃ piece, w.component.toList = v.component.toList ++ ']' :: ' ' :: piece ∧
      v.message.toList = piece ++ ']' :: ' ' :: w.message.toList := by
  have spelled (s t u : String) :
      s = t ++ separator ++ u ↔ s.toList = t.toList ++ ']' :: ' ' :: u.toList := by
    rw [← String.toList_inj, String.toList_append, String.toList_append, List.append_assoc]
    rfl
  constructor
  · rintro ⟨piece, component, message⟩
    exact ⟨piece.toList, (spelled ..).1 component, (spelled ..).1 message⟩
  · rintro ⟨piece, component, message⟩
    refine ⟨String.ofList piece, (spelled ..).2 ?_, (spelled ..).2 ?_⟩
    · rw [String.toList_ofList]
      exact component
    · rw [String.toList_ofList]
      exact message

theorem Overlaps.key_eq {v w : Warning} (overlaps : v.Overlaps w) : v.key = w.key := by
  obtain ⟨piece, component, message⟩ := overlaps_iff.1 overlaps
  rw [← String.toList_inj, toList_key, toList_key, component, message]
  simp

/-- Two warnings are recorded under one text exactly if they are equal or overlap. -/
theorem key_eq_key_iff {v w : Warning} :
    v.key = w.key ↔ v = w ∨ v.Overlaps w ∨ w.Overlaps v := by
  constructor
  · intro same
    rw [← String.toList_inj, toList_key, toList_key, List.cons.injEq] at same
    have equal {v w : Warning} (component : v.component.toList = w.component.toList)
        (message : v.message.toList = w.message.toList) : v = w := by
      rw [String.toList_inj] at component message
      cases v
      cases w
      rw [mk.injEq]
      exact ⟨component, message⟩
    rcases Nat.le_total v.component.toList.length w.component.toList.length with shorter | longer
    · rcases exists_piece same.2 shorter with ⟨component, message⟩ | piece
      · exact Or.inl (equal component message)
      · exact Or.inr (Or.inl (overlaps_iff.2 piece))
    · rcases exists_piece same.2.symm longer with ⟨component, message⟩ | piece
      · exact Or.inl (equal component message).symm
      · exact Or.inr (Or.inr (overlaps_iff.2 piece))
  · rintro (rfl | overlaps | overlaps)
    · rfl
    · exact overlaps.key_eq
    · exact overlaps.key_eq.symm

theorem Apart.not_overlaps {v w : Warning} (apart : w.Apart) : ¬ v.Overlaps w := by
  rintro ⟨piece, component, -⟩
  exact apart v.component piece component

end Warning

/-! ## Runs -/

namespace Warnings

/-- What a program does to the recorded warnings. -/
inductive Act : Type where
  | record (w : Warning)
  | clear

variable {acts : List Act} {v w : Warning}

/-- The recorded warnings after an act. -/
def act (recorded : Warnings) : Act → Warnings
  | .record w => recorded.record w
  | .clear => recorded.clear

/-- The recorded warnings after several acts. -/
def after (acts : List Act) : Warnings := acts.foldl act {}

/-- The warning was recorded, and nothing was cleared since. -/
def Stands (acts : List Act) (w : Warning) : Prop :=
  ∃ front back, acts = front ++ .record w :: back ∧ .clear ∉ back

theorem not_stands_nil : ¬ Stands [] w := by
  rintro ⟨front, back, parts, -⟩
  simp at parts

theorem stands_concat_record_iff : Stands (acts ++ [.record v]) w ↔ w = v ∨ Stands acts w := by
  constructor
  · rintro ⟨front, back, parts, kept⟩
    rcases List.eq_nil_or_concat back with rfl | ⟨back, last, rfl⟩
    · have last := List.singleton_inj.1 (List.append_inj_right' parts rfl)
      exact Or.inl (Act.record.inj last).symm
    · rw [List.concat_eq_append] at parts kept
      rw [← List.cons_append, ← List.append_assoc] at parts
      exact Or.inr ⟨front, back, List.append_inj_left' parts rfl,
        fun member => kept (List.mem_append_left _ member)⟩
  · rintro (rfl | ⟨front, back, rfl, kept⟩)
    · exact ⟨acts, [], rfl, List.not_mem_nil⟩
    · refine ⟨front, back ++ [.record v], by simp, fun member => ?_⟩
      rcases List.mem_append.1 member with member | member
      · exact kept member
      · cases List.mem_singleton.1 member

theorem not_stands_concat_clear : ¬ Stands (acts ++ [.clear]) w := by
  rintro ⟨front, back, parts, kept⟩
  rcases List.eq_nil_or_concat back with rfl | ⟨back, last, rfl⟩
  · cases List.singleton_inj.1 (List.append_inj_right' parts rfl)
  · rw [List.concat_eq_append] at parts kept
    rw [← List.cons_append, ← List.append_assoc] at parts
    rw [← List.append_inj_right' parts rfl] at kept
    exact kept (List.mem_append_right _ (List.mem_singleton_self _))

/-- A warning is answered for by those that stand and have its text. -/
theorem has_after_iff_key : (after acts).has v = true ↔ ∃ w, Stands acts w ∧ w.key = v.key := by
  induction acts using List.reverseRecOn with
  | nil => simp [after, has, not_stands_nil]
  | append_singleton acts a ih =>
    have step : after (acts ++ [a]) = (after acts).act a := by
      rw [after, List.foldl_append]
      rfl
    rw [step]
    cases a with
    | clear =>
      have cleared : ((after acts).act .clear).has v = false := rfl
      simp [cleared, not_stands_concat_clear]
    | record u =>
      rw [act, has_record, Bool.or_eq_true, beq_iff_eq, ih]
      simp only [stands_concat_record_iff]
      constructor
      · rintro (same | ⟨w, stands, same⟩)
        · exact ⟨u, Or.inl rfl, same.symm⟩
        · exact ⟨w, Or.inr stands, same⟩
      · rintro ⟨w, rfl | stands, same⟩
        · exact Or.inl same.symm
        · exact Or.inr ⟨w, stands, same⟩

/-- **Warnings answer for themselves and for those that they overlap with.** Whatever was recorded
and cleared, a warning is taken for recorded, and told no more, exactly if itself or one that it
overlaps with was recorded since the last clearing. Among components without the separator there are
no overlaps, and the answers are exact. -/
theorem has_after_iff (acts : List Act) (v : Warning) :
    ((after acts).has v = true ↔ ∃ w, Stands acts w ∧ (w = v ∨ w.Overlaps v ∨ v.Overlaps w)) ∧
    ((after acts).fresh [v] = [] ↔
      ∃ w, Stands acts w ∧ (w = v ∨ w.Overlaps v ∨ v.Overlaps w)) ∧
    (v.Apart → (∀ w, Stands acts w → w.Apart) → ((after acts).has v = true ↔ Stands acts v)) := by
  have answer : (after acts).has v = true ↔
      ∃ w, Stands acts w ∧ (w = v ∨ w.Overlaps v ∨ v.Overlaps w) := by
    simp only [has_after_iff_key, Warning.key_eq_key_iff]
  refine ⟨answer, ?_, fun apart allApart => ?_⟩
  · have silent : (after acts).fresh [v] = [] ↔ (after acts).has v = true := by
      rw [fresh]
      split <;> simp_all [fresh]
    exact silent.trans answer
  · rw [answer]
    constructor
    · rintro ⟨w, stands, rfl | overlaps | overlaps⟩
      · exact stands
      · exact absurd overlaps apart.not_overlaps
      · exact absurd overlaps (allApart w stands).not_overlaps
    · exact fun stands => ⟨v, stands, Or.inl rfl⟩

/-- A warning that was recorded before the last clearing is not answered for, and one that was
recorded after it is. -/
theorem has_after_clearing :
    let acts : List Act := [.record ⟨"DOM", "a] b"⟩, .clear, .record ⟨"DOM", "b"⟩]
    (after acts).has ⟨"DOM", "a] b"⟩ = false ∧ (after acts).has ⟨"DOM", "b"⟩ = true ∧
      Stands acts ⟨"DOM", "b"⟩ := by
  intro acts
  have stands : Stands acts ⟨"DOM", "b"⟩ :=
    ⟨[.record ⟨"DOM", "a] b"⟩, .clear], [], rfl, List.not_mem_nil⟩
  have answered := (has_after_iff acts ⟨"DOM", "b"⟩).1.2 ⟨_, stands, Or.inl rfl⟩
  exact ⟨by decide, answered, stands⟩

/-- The message `c` of the component `a] b` answers for the message `b] c` of the component `a`,
which nobody recorded. -/
theorem has_after_other_component :
    let recorded : Warning := ⟨"a] b", "c"⟩
    let other : Warning := ⟨"a", "b] c"⟩
    (after [.record recorded]).has other = true ∧ (after [.record recorded]).fresh [other] = [] ∧
      ¬ Stands [.record recorded] other := by
  intro recorded other
  refine ⟨by decide, by decide, fun stands => ?_⟩
  have one : Stands ([] ++ [.record recorded]) other := stands
  rcases stands_concat_record_iff.1 one with same | none
  · exact absurd same (by decide)
  · exact not_stands_nil none

end Warnings

end Selectors
