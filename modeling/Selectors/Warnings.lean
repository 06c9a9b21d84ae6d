/-!
Warnings: notes on input that is accepted but ignored. Each one comes from a component and is
recorded once, under one text made of the component and the message.
-/

namespace Selectors

/-- A note on ignored input. -/
structure Warning : Type where
  component : String
  message : String
deriving DecidableEq, Repr

/-- The text under which a warning is recorded. -/
def Warning.key (w : Warning) : String := "[" ++ w.component ++ "] " ++ w.message

/-- The texts of the recorded warnings, the latest last. -/
structure Warnings : Type where
  keys : List String := []
deriving Inhabited

namespace Warnings

/-- Whether a warning is recorded. -/
def has (recorded : Warnings) (w : Warning) : Bool := recorded.keys.contains w.key

/-- Records a warning, unless it is recorded already. -/
def record (recorded : Warnings) (w : Warning) : Warnings :=
  if recorded.has w then recorded else ⟨recorded.keys ++ [w.key]⟩

/-- Records several warnings in order. -/
def recordAll (recorded : Warnings) (ws : List Warning) : Warnings := ws.foldl record recorded

/-- The warnings among several that are recorded for the first time, in order. -/
def fresh (recorded : Warnings) : List Warning → List Warning
  | [] => []
  | w :: ws =>
    if recorded.has w then recorded.fresh ws else w :: (recorded.record w).fresh ws

/-- Nothing recorded. -/
def clear (_ : Warnings) : Warnings := {}

/-- After a warning is recorded exactly the warnings with its text are recorded in addition. -/
theorem has_record (recorded : Warnings) (w v : Warning) :
    (recorded.record w).has v = (v.key == w.key || recorded.has v) := by
  unfold record
  split
  · rename_i h
    by_cases hv : v.key = w.key
    · simp_all [has]
    · simp [hv]
  · simp only [has, List.contains_append, List.contains_cons, List.contains_nil, Bool.or_false]
    exact Bool.or_comm _ _

end Warnings

end Selectors
