import Selectors.Predicate

/-!
Matchers: what a selector comes to when its constant parts are worked out. A matcher accepts every
element, none, or those for which a predicate holds.

`Matcher.all`, `Matcher.any` and `Matcher.negate` combine matchers and keep constants constant, so
no predicate they build has a constant member. `accepts_all`, `accepts_any` and `accepts_negate`
say that they mean conjunction, disjunction and negation.
-/

namespace Selectors

/-- A test whose constant cases are known without looking at an element. -/
inductive Matcher : Type where
  | always
  | never
  | test (predicate : Predicate)
deriving Inhabited

namespace Matcher

/-- Whether a matcher accepts an element. -/
def accepts (doc : Document) (e : Element) : Matcher → Bool
  | .always => true
  | .never => false
  | .test predicate => predicate.holds doc e

/-- No element can be accepted. -/
def isNever : Matcher → Bool
  | .never => true
  | _ => false

/-- The predicates of a conjunction that are left when what always holds is dropped; nothing if a
member never holds. -/
def conjuncts? : List Matcher → Option (List Predicate)
  | [] => some []
  | .always :: rest => conjuncts? rest
  | .never :: _ => none
  | .test p :: rest => (conjuncts? rest).map (p :: ·)

/-- The predicates of a disjunction that are left when what never holds is dropped; nothing if a
member always holds. -/
def disjuncts? : List Matcher → Option (List Predicate)
  | [] => some []
  | .always :: _ => none
  | .never :: rest => disjuncts? rest
  | .test p :: rest => (disjuncts? rest).map (p :: ·)

/-- All members accept. -/
def all (members : List Matcher) : Matcher :=
  match conjuncts? members with
  | none => .never
  | some [] => .always
  | some [p] => .test p
  | some ps => .test (.and ps)

/-- Some member accepts. -/
def any (members : List Matcher) : Matcher :=
  match disjuncts? members with
  | none => .always
  | some [] => .never
  | some [p] => .test p
  | some ps => .test (.or ps)

/-- Accepts what another matcher does not. -/
def negate : Matcher → Matcher
  | .always => .never
  | .never => .always
  | .test p => .test (.not p)

/-! ## Meaning -/

theorem conjuncts?_holds (doc : Document) (e : Element) (members : List Matcher) :
    (conjuncts? members).any (fun ps => ps.all fun p => p.holds doc e) =
      members.all (accepts doc e) := by
  induction members with
  | nil => rfl
  | cons m rest ih =>
    cases m with
    | always => simpa [conjuncts?, accepts] using ih
    | never => simp [conjuncts?, accepts]
    | test p =>
      simp only [conjuncts?, List.all_cons, accepts, ← ih]
      cases conjuncts? rest <;> simp

theorem disjuncts?_holds (doc : Document) (e : Element) (members : List Matcher) :
    (disjuncts? members).all (fun ps => ps.any fun p => p.holds doc e) =
      members.any (accepts doc e) := by
  induction members with
  | nil => rfl
  | cons m rest ih =>
    cases m with
    | always => simp [disjuncts?, accepts]
    | never => simpa [disjuncts?, accepts] using ih
    | test p =>
      simp only [disjuncts?, List.any_cons, accepts, ← ih]
      cases disjuncts? rest <;> simp

/-- A conjunction accepts what all members accept. -/
theorem accepts_all (doc : Document) (e : Element) (members : List Matcher) :
    (all members).accepts doc e = members.all (accepts doc e) := by
  rw [← conjuncts?_holds]
  unfold all
  split <;> rename_i h <;>
    simp [h, accepts, Predicate.holds, Predicate.holdsAll_eq]

/-- A disjunction accepts what some member accepts. -/
theorem accepts_any (doc : Document) (e : Element) (members : List Matcher) :
    (any members).accepts doc e = members.any (accepts doc e) := by
  rw [← disjuncts?_holds]
  unfold any
  split <;> rename_i h <;>
    simp [h, accepts, Predicate.holds, Predicate.holdsAny_eq]

/-- A negation accepts exactly what is not accepted. -/
theorem accepts_negate (doc : Document) (e : Element) (m : Matcher) :
    m.negate.accepts doc e = !m.accepts doc e := by
  cases m <;> simp [negate, accepts, Predicate.holds]

end Matcher

end Selectors
