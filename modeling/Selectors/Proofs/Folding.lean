import Mathlib.Data.List.Forall2
import Selectors.Compiled
import Selectors.Proofs.Basic

/-!
Folding is evaluation with three truth values. Before an element is seen a test holds always, never,
or it is not known whether it holds (`Truth`). A conjunction is settled by one part that never
holds, a disjunction by one that always holds, and no relative of an element is known to be there.

`Chain.truth` works out a chain in this way, without a matcher, and `Formula.truth` any nesting of
`Matcher.all`, `Matcher.any` and `Matcher.negate`. A matcher is constant exactly if its truth value
is known; nothing constant is left unfolded and nothing open is folded
(`folding_is_three_valued`). Both halves rest on one fact: to take the truth value of a matcher
carries the connectives of matchers to those of truth values.
-/

namespace Selectors

/-! ## Three truth values -/

/-- What is known of a test before an element is seen. -/
inductive Truth : Type where
  /-- It never holds. -/
  | no
  /-- It depends on the element. -/
  | unknown
  /-- It always holds. -/
  | yes
deriving DecidableEq, Repr

namespace Truth

/-- A truth value that is known. -/
def ofBool (b : Bool) : Truth := if b then .yes else .no

/-- Conjunction: a part that never holds settles it, even if the other part is not known. -/
def and : Truth → Truth → Truth
  | .no, _ => .no
  | _, .no => .no
  | .yes, .yes => .yes
  | _, _ => .unknown

/-- Disjunction: a part that always holds settles it, even if the other part is not known. -/
def or : Truth → Truth → Truth
  | .yes, _ => .yes
  | _, .yes => .yes
  | .no, .no => .no
  | _, _ => .unknown

/-- Negation: what is not known stays unknown. -/
def not : Truth → Truth
  | .no => .yes
  | .unknown => .unknown
  | .yes => .no

/-- The conjunction of any number of parts. -/
def all (parts : List Truth) : Truth := parts.foldr and .yes

/-- The disjunction of any number of parts. -/
def any (parts : List Truth) : Truth := parts.foldr or .no

/-- Some part holds unless all their negations do. -/
theorem any_eq_not_all (parts : List Truth) : any parts = (all (parts.map not)).not := by
  induction parts with
  | nil => rfl
  | cons t rest ih =>
    have head (u : Truth) : t.or u.not = (t.not.and u).not := by cases t <;> cases u <;> rfl
    exact (congrArg t.or ih).trans (head (all (rest.map not)))

end Truth

/-! ## Selectors -/

/-- No value stands to the operand as the operator says: a word is never empty and holds no blank,
and a piece of a value is never empty. -/
def AttributeOperator.failsWith (operand : String) : AttributeOperator → Bool
  | .includes => operand.isEmpty || operand.toList.any isBlank
  | .startsWith => operand.isEmpty
  | .endsWith => operand.isEmpty
  | .contains => operand.isEmpty
  | .equals => false
  | .dashMatch => false

/-- The pseudo-classes that somebody who uses the document would bring about. -/
def PseudoClass.isLive : PseudoClass → Bool
  | .visited => true
  | .hover => true
  | .active => true
  | .focus => true
  | .target => true
  | _ => false

mutual

/-- What is known of a simple selector. -/
def Simple.truth : Simple → Truth
  | .typeName _ => .unknown
  | .inNamespace _ => .unknown
  | .className _ => .unknown
  | .id _ => .unknown
  | .hasAttribute a => if a.operator?.any (·.failsWith a.operand) then .no else .unknown
  | .pseudoClass name => if (PseudoClass.ofName? name).any (·.isLive) then .no else .unknown
  | .functional _ _ => .unknown
  | .negation inner => (Simple.allTruth inner).not

/-- What is known of the conjunction of several simple selectors. -/
def Simple.allTruth : List Simple → Truth
  | [] => .yes
  | simple :: rest => simple.truth.and (Simple.allTruth rest)

end

/-- What is known of a chain. That a relative exists is never known. -/
def Chain.truth : Chain → Truth
  | .single subject => Simple.allTruth subject
  | .joined left _ subject => .all [left.truth, Simple.allTruth subject, .unknown]

/-! ## Formulas -/

/-- Constants and predicates, put together in any way. -/
inductive Formula : Type where
  | constant (value : Bool)
  | test (predicate : Predicate)
  | all (members : List Formula)
  | any (members : List Formula)
  | negate (inner : Formula)

/-- Constants and connectives of some kind of value. -/
structure Connectives (α : Type) : Type where
  constant : Bool → α
  all : List α → α
  any : List α → α
  negate : α → α

namespace Formula

mutual

/-- Works out a formula with given connectives, a predicate counting as a given value. -/
def value {α : Type} (k : Connectives α) (leaf : Predicate → α) : Formula → α
  | .constant b => k.constant b
  | .test p => leaf p
  | .all members => k.all (values k leaf members)
  | .any members => k.any (values k leaf members)
  | .negate inner => k.negate (inner.value k leaf)

/-- Works out several formulas. -/
def values {α : Type} (k : Connectives α) (leaf : Predicate → α) : List Formula → List α
  | [] => []
  | f :: rest => f.value k leaf :: values k leaf rest

end

/-- The matcher that folding makes of a formula. -/
def matcher : Formula → Matcher :=
  value ⟨fun b => if b then .always else .never, Matcher.all, Matcher.any, Matcher.negate⟩ .test

/-- What is known of a formula if nothing is known of its predicates. -/
def truth : Formula → Truth :=
  value ⟨.ofBool, Truth.all, Truth.any, Truth.not⟩ fun _ => .unknown

/-- Whether a formula holds for an element. -/
def holds (doc : Document) (e : Element) : Formula → Bool :=
  value ⟨id, fun parts => parts.all id, fun parts => parts.any id, Bool.not⟩ fun p => p.holds doc e

/-- The predicates that stand in a formula. -/
def tests : Formula → List Predicate :=
  value ⟨fun _ => [], List.flatten, List.flatten, id⟩ fun p => [p]

end Formula

/-- A predicate is put together from given ones, and every conjunction and disjunction that it is
put together with has at least two members. -/
inductive Predicate.MadeOf (leaves : List Predicate) : Predicate → Prop
  | leaf {p : Predicate} : p ∈ leaves → MadeOf leaves p
  | not {p : Predicate} : MadeOf leaves p → MadeOf leaves (.not p)
  | and {members : List Predicate} :
    2 ≤ members.length → (∀ p ∈ members, MadeOf leaves p) → MadeOf leaves (.and members)
  | or {members : List Predicate} :
    2 ≤ members.length → (∀ p ∈ members, MadeOf leaves p) → MadeOf leaves (.or members)

/-! ## The truth value of a matcher -/

namespace Matcher

/-- What is known of a matcher: its constants are known. -/
def truth : Matcher → Truth
  | .always => .yes
  | .never => .no
  | .test _ => .unknown

theorem truth_eq_no_iff {m : Matcher} : m.truth = .no ↔ m = .never := by
  cases m <;> simp [truth]

theorem truth_eq_yes_iff {m : Matcher} : m.truth = .yes ↔ m = .always := by
  cases m <;> simp [truth]

theorem isNever_iff {m : Matcher} : m.isNever = true ↔ m = .never := by
  cases m <;> simp [isNever]

theorem truth_all_cons (m : Matcher) (rest : List Matcher) :
    (all (m :: rest)).truth = m.truth.and (all rest).truth := by
  unfold all
  cases m with
  | always =>
    rw [conjuncts?]
    cases conjuncts? rest with
    | none => rfl
    | some ps => rcases ps with _ | ⟨p, _ | ⟨q, ps⟩⟩ <;> rfl
  | never => rfl
  | test p =>
    rw [conjuncts?]
    cases conjuncts? rest with
    | none => rfl
    | some ps => rcases ps with _ | ⟨q, _ | ⟨r, ps⟩⟩ <;> rfl

/-- Folding a conjunction is the conjunction of what is known of its members. -/
theorem truth_all (members : List Matcher) :
    (all members).truth = Truth.all (members.map truth) := by
  induction members with
  | nil => rfl
  | cons m rest ih =>
    rw [truth_all_cons, ih]
    rfl

/-- Exchanges the constants. -/
def swap : Matcher → Matcher
  | .always => .never
  | .never => .always
  | .test p => .test p

/-- A disjunction leaves what a conjunction leaves once the constants are exchanged. -/
theorem disjuncts?_eq (members : List Matcher) :
    disjuncts? members = conjuncts? (members.map swap) := by
  induction members with
  | nil => rfl
  | cons m rest ih =>
    cases m with
    | always => rfl
    | never => exact ih
    | test p => exact congrArg (Option.map (p :: ·)) ih

/-- Folding a disjunction is the disjunction of what is known of its members. -/
theorem truth_any (members : List Matcher) :
    (any members).truth = Truth.any (members.map truth) := by
  have swapped (m : Matcher) : m.swap.truth = m.truth.not := by cases m <;> rfl
  calc
    (any members).truth = (all (members.map swap)).truth.not := by
      unfold any all
      rw [disjuncts?_eq]
      rcases conjuncts? (members.map swap) with _ | _ | ⟨p, _ | ⟨q, ps⟩⟩ <;> rfl
    _ = (Truth.all ((members.map truth).map Truth.not)).not := by
      rw [truth_all, List.map_map, List.map_map]
      exact congrArg (fun f => (Truth.all (members.map f)).not) (funext swapped)
    _ = Truth.any (members.map truth) := (Truth.any_eq_not_all _).symm

theorem truth_negate (m : Matcher) : m.negate.truth = m.truth.not := by
  cases m <;> rfl

end Matcher

/-! ## The truth value of a compiled selector -/

theorem AttributeSelector.truth_matcher {a : AttributeSelector} {m : Matcher}
    (h : a.matcher = .ok m) : m.truth = (Simple.hasAttribute a).truth := by
  rcases a with ⟨url?, name, operator?, operand⟩
  cases url? with
  | none => cases h
  | some url =>
    cases h
    cases operator? with
    | none => rfl
    | some o =>
      cases o with
      | equals | dashMatch => rfl
      | includes | startsWith | endsWith | contains => exact apply_ite Matcher.truth _ _ _

theorem PseudoClass.truth_matcher (c : PseudoClass) :
    c.matcher.truth = if c.isLive then .no else .unknown := by
  cases c <;> rfl

theorem truth_pseudoClassMatcher {name : String} {m : Matcher}
    (h : pseudoClassMatcher name = .ok m) : m.truth = (Simple.pseudoClass name).truth := by
  unfold pseudoClassMatcher at h
  split at h
  · rename_i c known
    cases h
    rw [PseudoClass.truth_matcher, Simple.truth, known]
    rfl
  · cases h

theorem truth_functionalMatcher {name : String} {arguments : List Token} {m : Matcher}
    (h : functionalMatcher name arguments = .ok m) : m.truth = .unknown := by
  unfold functionalMatcher at h
  split at h
  · cases h
  · split at h <;> cases h
    rfl
  · split at h <;> cases h
    rfl

mutual

/-- Compiling a simple selector folds it to what is known of it. -/
theorem Simple.truth_matcher : ∀ {simple : Simple} {m : Matcher}, simple.matcher = .ok m →
    m.truth = simple.truth
  | .typeName _, _, h => by
    cases h
    rfl
  | .inNamespace _, _, h => by
    cases h
    rfl
  | .className _, _, h => by
    cases h
    rfl
  | .id _, _, h => by
    cases h
    rfl
  | .hasAttribute _, _, h => AttributeSelector.truth_matcher h
  | .pseudoClass _, _, h => truth_pseudoClassMatcher h
  | .functional _ _, _, h => by
    rw [Simple.truth]
    exact truth_functionalMatcher h
  | .negation inner, m, h => by
    rw [Simple.matcher] at h
    obtain ⟨members, compiled, rfl⟩ := map_eq_ok_iff.1 h
    rw [Matcher.truth_negate, Simple.truth, Simple.truth_matchers compiled]

theorem Simple.truth_matchers : ∀ {c : List Simple} {members : List Matcher},
    Simple.matchers c = .ok members → (Matcher.all members).truth = Simple.allTruth c
  | [], _, h => by
    cases h
    rfl
  | simple :: rest, _, h => by
    obtain ⟨m, members, first, others, rfl⟩ := Simple.matchers_cons_eq_ok_iff.1 h
    rw [Matcher.truth_all_cons, Simple.truth_matcher first, Simple.truth_matchers others,
      Simple.allTruth]

end

theorem Compound.truth_matcher {c : Compound} {m : Matcher} (h : Compound.matcher c = .ok m) :
    m.truth = Simple.allTruth c := by
  obtain ⟨members, compiled, rfl⟩ := map_eq_ok_iff.1 h
  exact Simple.truth_matchers compiled

/-- What is asked of a relative is known only if no relative can meet it. -/
theorem Combinator.truth_relation (k : Combinator) (m : Matcher) :
    (k.relation m).truth = m.truth.and .unknown := by
  cases m with
  | never => rfl
  | always => cases k <;> rfl
  | test p => cases k <;> rfl

theorem Chain.truth_matcher {chain : Chain} {m : Matcher} (h : chain.matcher = .ok m) :
    m.truth = chain.truth := by
  induction chain generalizing m with
  | single subject => exact Compound.truth_matcher h
  | joined left k subject ih =>
    obtain ⟨relative, own, compiled, compiledOwn, rfl⟩ := Chain.matcher_joined_eq_ok_iff.1 h
    have sides : (Matcher.all [own, k.relation relative]).truth =
        Truth.all [own.truth, relative.truth.and .unknown] := by
      rw [Matcher.truth_all, List.map_cons, List.map_cons, Combinator.truth_relation]
      rfl
    rw [sides, Chain.truth, ← ih compiled, ← Compound.truth_matcher compiledOwn]
    -- the existence of a relative may be counted on either side
    cases own.truth <;> cases relative.truth <;> rfl

/-! ## The truth value of a formula -/

section Values

variable {α β : Type} {k : Connectives α} {k' : Connectives β} {leaf : Predicate → α}
  {leaf' : Predicate → β}

/-- Related values give related values under the connectives of both sides. -/
structure Connectives.Related (R : α → β → Prop) (k : Connectives α) (k' : Connectives β) :
    Prop where
  constant : ∀ b, R (k.constant b) (k'.constant b)
  all : ∀ {xs ys}, List.Forall₂ R xs ys → R (k.all xs) (k'.all ys)
  any : ∀ {xs ys}, List.Forall₂ R xs ys → R (k.any xs) (k'.any ys)
  negate : ∀ {x y}, R x y → R (k.negate x) (k'.negate y)

/-- A map that carries the connectives of one side to those of the other relates them. -/
theorem Connectives.related_of_map {h : α → β}
    (constant : ∀ b, h (k.constant b) = k'.constant b)
    (all : ∀ xs, h (k.all xs) = k'.all (xs.map h))
    (any : ∀ xs, h (k.any xs) = k'.any (xs.map h))
    (negate : ∀ x, h (k.negate x) = k'.negate (h x)) :
    Connectives.Related (fun x y => h x = y) k k' := by
  have images {xs : List α} {ys : List β} (each : List.Forall₂ (fun x y => h x = y) xs ys) :
      xs.map h = ys := by
    rw [← List.forall₂_eq_eq_eq, List.forall₂_map_left_iff]
    exact each
  refine ⟨constant, fun each => ?_, fun each => ?_, fun same => ?_⟩
  · rw [all, images each]
  · rw [any, images each]
  · rw [negate, same]

mutual

/-- Worked out on two sides that are related, a formula has related values. -/
theorem Formula.value_related {R : α → β → Prop} (related : Connectives.Related R k k')
    (leaves : ∀ p, R (leaf p) (leaf' p)) : ∀ f : Formula, R (f.value k leaf) (f.value k' leaf')
  | .constant b => related.constant b
  | .test p => leaves p
  | .all members => related.all (Formula.values_related related leaves members)
  | .any members => related.any (Formula.values_related related leaves members)
  | .negate inner => related.negate (Formula.value_related related leaves inner)

theorem Formula.values_related {R : α → β → Prop} (related : Connectives.Related R k k')
    (leaves : ∀ p, R (leaf p) (leaf' p)) : ∀ fs : List Formula,
      List.Forall₂ R (Formula.values k leaf fs) (Formula.values k' leaf' fs)
  | [] => .nil
  | f :: rest => .cons (Formula.value_related related leaves f)
    (Formula.values_related related leaves rest)

end

end Values

namespace Formula

theorem truth_matcher (f : Formula) : f.matcher.truth = f.truth := by
  refine value_related (R := fun (m : Matcher) t => m.truth = t)
    (Connectives.related_of_map ?_ ?_ ?_ ?_) (fun p => rfl) f
  · intro b
    cases b <;> rfl
  · exact Matcher.truth_all
  · exact Matcher.truth_any
  · exact Matcher.truth_negate

/-- Folding a formula keeps what it says of every element. -/
theorem accepts_matcher (doc : Document) (e : Element) (f : Formula) :
    f.matcher.accepts doc e = f.holds doc e := by
  refine value_related (R := fun (m : Matcher) b => m.accepts doc e = b)
    (Connectives.related_of_map ?_ ?_ ?_ ?_) (fun p => rfl) f
  · intro b
    cases b <;> rfl
  · intro members
    rw [Matcher.accepts_all]
    exact (List.all_map (p := id)).symm
  · intro members
    rw [Matcher.accepts_any]
    exact (List.any_map (p := id)).symm
  · exact Matcher.accepts_negate doc e

end Formula

/-! ## How folded predicates are put together -/

theorem Predicate.MadeOf.mono {leaves more : List Predicate} (wider : leaves ⊆ more)
    {p : Predicate} (made : p.MadeOf leaves) : p.MadeOf more := by
  induction made with
  | leaf member => exact .leaf (wider member)
  | not _ ih => exact .not ih
  | and several _ ih => exact .and several ih
  | or several _ ih => exact .or several ih

namespace Matcher

/-- A matcher is constant, or its predicate is put together from given ones. -/
def MadeOf (leaves : List Predicate) (m : Matcher) : Prop :=
  ∀ p, m = .test p → p.MadeOf leaves

theorem test_mem_of_conjuncts? {members : List Matcher} {ps : List Predicate}
    (found : conjuncts? members = some ps) : ∀ p ∈ ps, .test p ∈ members := by
  induction members generalizing ps with
  | nil =>
    cases found
    nofun
  | cons m rest ih =>
    cases m with
    | always => exact fun p member => List.mem_cons_of_mem _ (ih found p member)
    | never => cases found
    | test q =>
      obtain ⟨others, foundRest, rfl⟩ := Option.map_eq_some_iff.1 found
      intro p member
      rcases List.mem_cons.1 member with rfl | member
      · exact List.mem_cons_self
      · exact List.mem_cons_of_mem _ (ih foundRest p member)

theorem test_mem_of_disjuncts? {members : List Matcher} {ps : List Predicate}
    (found : disjuncts? members = some ps) : ∀ p ∈ ps, .test p ∈ members := by
  intro p member
  rw [disjuncts?_eq] at found
  obtain ⟨m, inside, same⟩ := List.mem_map.1 (test_mem_of_conjuncts? found p member)
  cases m with
  | always | never => cases same
  | test q =>
    cases same
    exact inside

theorem two_le_length {ps : List Predicate} (notNil : ps ≠ []) (notSingle : ∀ p, ps ≠ [p]) :
    2 ≤ ps.length := by
  rcases ps with _ | ⟨p, _ | ⟨q, ps⟩⟩
  · exact absurd rfl notNil
  · exact absurd rfl (notSingle p)
  · exact Nat.le_add_left 2 ps.length

variable {leaves : List Predicate} {members : List Matcher}

/-- A conjunction is built only where at least two predicates are left. -/
theorem madeOf_all (made : ∀ m ∈ members, m.MadeOf leaves) : (all members).MadeOf leaves := by
  intro p same
  unfold all at same
  split at same
  · cases same
  · cases same
  · rename_i found
    cases same
    exact made _ (test_mem_of_conjuncts? found p List.mem_cons_self) p rfl
  · rename_i ps notNil notSingle found
    cases same
    exact .and (two_le_length notNil notSingle)
      fun q member => made _ (test_mem_of_conjuncts? found q member) q rfl

/-- A disjunction is built only where at least two predicates are left. -/
theorem madeOf_any (made : ∀ m ∈ members, m.MadeOf leaves) : (any members).MadeOf leaves := by
  intro p same
  unfold any at same
  split at same
  · cases same
  · cases same
  · rename_i found
    cases same
    exact made _ (test_mem_of_disjuncts? found p List.mem_cons_self) p rfl
  · rename_i ps notNil notSingle found
    cases same
    exact .or (two_le_length notNil notSingle)
      fun q member => made _ (test_mem_of_disjuncts? found q member) q rfl

theorem madeOf_negate {m : Matcher} (made : m.MadeOf leaves) : m.negate.MadeOf leaves := by
  cases m with
  | always | never => nofun
  | test p =>
    intro q same
    cases same
    exact .not (made p rfl)

end Matcher

theorem Formula.madeOf_matcher (f : Formula) : f.matcher.MadeOf f.tests := by
  have flat {ms : List Matcher} {pss : List (List Predicate)}
      (each : List.Forall₂ (fun m ps => m.MadeOf ps) ms pss) :
      ∀ m ∈ ms, m.MadeOf pss.flatten := by
    induction each with
    | nil => nofun
    | cons first _ ih =>
      intro m member p same
      rw [List.flatten_cons]
      rcases List.mem_cons.1 member with rfl | member
      · exact (first p same).mono (List.subset_append_left ..)
      · exact (ih m member p same).mono (List.subset_append_right ..)
  refine value_related (R := fun (m : Matcher) ps => m.MadeOf ps) ⟨?_, ?_, ?_, ?_⟩ ?_ f
  · intro b p same
    cases b <;> cases same
  · exact fun each => Matcher.madeOf_all (flat each)
  · exact fun each => Matcher.madeOf_any (flat each)
  · exact Matcher.madeOf_negate
  · intro p q same
    cases same
    exact .leaf List.mem_cons_self

/-! ## Folding -/

/-- **Folding is exactly evaluation with three truth values.** A selector compiles to a matcher that
is constant if and only if its truth value is known, and then to that constant. So does any nesting
of constants, predicates, conjunctions, disjunctions and negations; where it does not come to a
constant, it comes to a predicate that says the same of every element, and all conjunctions and
disjunctions that were built for it have at least two members. -/
theorem folding_is_three_valued :
    (∀ (s : Selector) (c : Compiled), s.compile = .ok c →
      (c.neverMatches = true ↔ c.matcher = .never) ∧
      (c.matcher = .never ↔ s.chain.truth = .no) ∧
      (c.matcher = .always ↔ s.chain.truth = .yes)) ∧
    ∀ f : Formula,
      (f.matcher = .never ↔ f.truth = .no) ∧
      (f.matcher = .always ↔ f.truth = .yes) ∧
      ∀ p, f.matcher = .test p →
        (∀ doc e, p.holds doc e = f.holds doc e) ∧ p.MadeOf f.tests := by
  refine ⟨fun s c compiled => ?_, fun f => ?_⟩
  · obtain ⟨m, built, rfl⟩ := map_eq_ok_iff.1 compiled
    rw [← Chain.truth_matcher built, Matcher.truth_eq_no_iff, Matcher.truth_eq_yes_iff]
    exact ⟨Matcher.isNever_iff, Iff.rfl, Iff.rfl⟩
  · rw [← Formula.truth_matcher, Matcher.truth_eq_no_iff, Matcher.truth_eq_yes_iff]
    refine ⟨Iff.rfl, Iff.rfl, fun p same => ⟨fun doc e => ?_, f.madeOf_matcher p same⟩⟩
    rw [← Formula.accepts_matcher, same]
    rfl

/-- The chain `:hover > li` never matches, whatever an item is. The compound `:not([title*=""])`
always does. What is left of a formula when its constants are gone is a conjunction of two. -/
theorem folding_of_hovered_parent :
    let hovered := Selector.ofChain
      (.joined (.single [.pseudoClass "hover"]) .child [.typeName "li"]) none
    let untitled := Selector.ofChain
      (.single [.negation [.hasAttribute ⟨some "", "title", some .contains, ""⟩]]) none
    let f : Formula :=
      .any [.constant false, .all [.test .root, .constant true, .negate (.test .empty)]]
    (∃ c, hovered.compile = .ok c ∧ hovered.chain.truth = .no ∧ c.matcher = .never ∧
      c.neverMatches = true) ∧
    (∃ c, untitled.compile = .ok c ∧ untitled.chain.truth = .yes ∧ c.matcher = .always) ∧
    f.matcher = .test (.and [.root, .not .empty]) ∧
      (∀ doc e, (Predicate.and [.root, .not .empty]).holds doc e = f.holds doc e) ∧
      (Predicate.and [.root, .not .empty]).MadeOf [.root, .empty] := by
  intro hovered untitled f
  obtain ⟨selectors, formulas⟩ := folding_is_three_valued
  have folded : f.matcher = .test (.and [.root, .not .empty]) := rfl
  refine ⟨⟨_, rfl, rfl, ?_⟩, ⟨_, rfl, rfl, ?_⟩, folded, (formulas f).2.2 _ folded⟩
  · obtain ⟨never, no, _⟩ := selectors hovered _ rfl
    exact ⟨no.2 rfl, never.2 (no.2 rfl)⟩
  · exact (selectors untitled _ rfl).2.2.2 rfl

end Selectors
