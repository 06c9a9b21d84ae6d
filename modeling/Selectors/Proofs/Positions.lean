import Selectors.Proofs.AnPlusB
import Selectors.Proofs.Matching
import Selectors.Proofs.Relatives

/-!
Structural pseudo-classes say where an element stands. `NthKind.position` is the position, counted
from one, that a counting pseudo-class compares with `A·n + B`, read off the list of siblings and the
place of the element in it. `Document.Placed` collects what the structural pseudo-classes say of an
element at a place. Several of them come to the same condition, although one looks at the list and
another one at the links, and in every document that a program can come to they agree
(`placed_of_reachable`).
-/

namespace Selectors

variable {doc : Document} {e f : Element} {condition : Prop}

/-! ## Types and positions -/

/-- Elements of one type have one name and one namespace, where no namespace is the empty one. -/
structure Element.SameType (e f : Element) : Prop where
  name : e.data.name = f.data.name
  namespaceUrl : e.data.namespaceUrl?.getD "" = f.data.namespaceUrl?.getD ""

theorem ElementData.sameType_iff : e.data.sameType f.data = true ↔ e.SameType f := by
  unfold ElementData.sameType
  rw [Bool.and_eq_true, beq_iff_eq, beq_iff_eq]
  exact ⟨fun ⟨name, url⟩ => ⟨name, url⟩, fun ⟨name, url⟩ => ⟨name, url⟩⟩

instance : DecidableRel Element.SameType := fun _ _ =>
  decidable_of_iff _ ElementData.sameType_iff

/-- The position of an element that stands at place `i` of its siblings. The first place is 0, and
the first position is 1. -/
def NthKind.position (siblings : List Element) (i : Nat) (e : Element) : NthKind → Nat
  | .child => i + 1
  | .lastChild => siblings.length - i
  | .ofType => 1 + (siblings.take i).countP fun f => e.SameType f
  | .lastOfType => 1 + (siblings.drop (i + 1)).countP fun f => e.SameType f

section First

variable {siblings : List Element} {i : Nat}

theorem NthKind.position_child_eq_one_iff : child.position siblings i e = 1 ↔ i = 0 := by
  rw [position, Nat.add_eq_right]

theorem NthKind.position_lastChild_eq_one_iff :
    lastChild.position siblings i e = 1 ↔ i + 1 = siblings.length := by
  rw [position]
  omega

theorem NthKind.position_ofType_eq_one_iff :
    ofType.position siblings i e = 1 ↔ ∀ f ∈ siblings.take i, ¬ e.SameType f := by
  rw [position, Nat.add_eq_left, List.countP_eq_zero]
  simp only [decide_eq_true_eq]

theorem NthKind.position_lastOfType_eq_one_iff :
    lastOfType.position siblings i e = 1 ↔ ∀ f ∈ siblings.drop (i + 1), ¬ e.SameType f := by
  rw [position, Nat.add_eq_left, List.countP_eq_zero]
  simp only [decide_eq_true_eq]

end First

/-! ## What a selector says -/

/-- The chain compiles, and it matches an element exactly if the condition is met. -/
def Chain.Means (chain : Chain) (doc : Document) (e : Element) (condition : Prop) : Prop :=
  ∃ m, chain.matcher = .ok m ∧ (m.accepts doc e = true ↔ condition)

/-- The selector `:name`. -/
def Chain.ofPseudoClass (c : PseudoClass) : Chain := .single [.pseudoClass c.name]

/-- The selector `:name(arguments)` of a counting pseudo-class. -/
def Chain.counting (kind : NthKind) (arguments : List Token) : Chain :=
  .single [.functional (FunctionalPseudoClass.nth kind).name arguments]

/-- Any element with any relative, such as `* + *`. -/
def Chain.related (k : Combinator) : Chain := .joined (.single []) k []

/-- The selector `:name(1)` of a counting pseudo-class, however the 1 is written, matches an element
exactly if the condition is met. -/
def NthKind.OneMeans (kind : NthKind) (doc : Document) (e : Element) (condition : Prop) : Prop :=
  ∀ arguments, AnPlusB.parse? arguments = some ⟨0, 1⟩ →
    (Chain.counting kind arguments).Means doc e condition

theorem Chain.means_single {simple : Simple} {m : Matcher} (compiled : simple.matcher = .ok m)
    (accepts : m.accepts doc e = true ↔ condition) :
    (Chain.single [simple]).Means doc e condition := by
  refine ⟨.all [m], ?_, ?_⟩
  · rw [Chain.matcher, Compound.matcher, Simple.matchers, compiled]
    rfl
  · rw [Matcher.accepts_all, List.all_cons, List.all_nil, Bool.and_true, accepts]

theorem Chain.means_ofPseudoClass {c : PseudoClass} (holds : c.Holds doc e ↔ condition) :
    (Chain.ofPseudoClass c).Means doc e condition := by
  have compiled : (Simple.pseudoClass c.name).matcher = .ok c.matcher := by
    rw [Simple.matcher, pseudoClassMatcher, PseudoClass.ofName?_name]
  exact Chain.means_single compiled (PseudoClass.accepts_iff_holds.trans holds)

theorem Chain.means_counting {kind : NthKind} {arguments : List Token} {p : AnPlusB}
    (spelled : AnPlusB.parse? arguments = some p) :
    (Chain.counting kind arguments).Means doc e
      (∃ n : Nat, ((doc.nthPosition e kind + 1 : Nat) : Int) = p.step.toInt * n + p.offset.toInt) := by
  have compiled : (Simple.functional (FunctionalPseudoClass.nth kind).name arguments).matcher =
      .ok (.test (.nth kind p)) := by
    rw [Simple.matcher, functionalMatcher, FunctionalPseudoClass.ofName?_name]
    dsimp only
    rw [spelled]
  refine Chain.means_single compiled ?_
  rw [Matcher.accepts, Predicate.holds, AnPlusB.selects_iff]
  exact exists_congr fun n => by omega

/-! ## Places -/

namespace Document

variable {i : Nat}

/-- What the structural pseudo-classes say of an element at place `i` of its siblings. -/
structure Placed (doc : Document) (e : Element) (i : Nat) : Prop where
  place : ∀ j, (doc.siblings e)[j]? = some e ↔ j = i
  counting : ∀ kind p, (∃ arguments, AnPlusB.parse? arguments = some p) ∧
    ∀ arguments, AnPlusB.parse? arguments = some p → (Chain.counting kind arguments).Means doc e
      (∃ n : Nat, (kind.position (doc.siblings e) i e : Int) = p.step.toInt * n + p.offset.toInt)
  firstChild : (Chain.ofPseudoClass .firstChild).Means doc e (i = 0) ∧
    NthKind.child.OneMeans doc e (i = 0) ∧ (Chain.related .nextSibling).Means doc e (i ≠ 0)
  lastChild : (Chain.ofPseudoClass .lastChild).Means doc e (i + 1 = (doc.siblings e).length) ∧
    NthKind.lastChild.OneMeans doc e (i + 1 = (doc.siblings e).length)
  firstOfType :
    (Chain.ofPseudoClass .firstOfType).Means doc e (∀ f ∈ (doc.siblings e).take i, ¬ e.SameType f) ∧
    NthKind.ofType.OneMeans doc e (∀ f ∈ (doc.siblings e).take i, ¬ e.SameType f)
  lastOfType :
    (Chain.ofPseudoClass .lastOfType).Means doc e
      (∀ f ∈ (doc.siblings e).drop (i + 1), ¬ e.SameType f) ∧
    NthKind.lastOfType.OneMeans doc e (∀ f ∈ (doc.siblings e).drop (i + 1), ¬ e.SameType f)
  onlyChild : (Chain.ofPseudoClass .onlyChild).Means doc e
    (i = 0 ∧ i + 1 = (doc.siblings e).length)
  onlyOfType : (Chain.ofPseudoClass .onlyOfType).Means doc e
    ((∀ f ∈ (doc.siblings e).take i, ¬ e.SameType f) ∧
      ∀ f ∈ (doc.siblings e).drop (i + 1), ¬ e.SameType f)
  root : (Chain.ofPseudoClass .root).Means doc e (doc.parentElement? e = none) ∧
    (Chain.related .child).Means doc e (doc.parentElement? e ≠ none)

/-- The members of a list at other places than one stand in front of it or behind it. -/
theorem forall_other_iff {α : Type} {xs : List α} {i : Nat} {p : α → Prop} :
    (∀ j x, xs[j]? = some x → j ≠ i → p x) ↔
      (∀ x ∈ xs.take i, p x) ∧ ∀ x ∈ xs.drop (i + 1), p x := by
  constructor
  · intro others
    constructor
    · intro x member
      obtain ⟨j, found⟩ := List.mem_iff_getElem?.1 member
      rw [List.getElem?_take, Option.ite_none_right_eq_some] at found
      exact others j x found.2 (Nat.ne_of_lt found.1)
    · intro x member
      obtain ⟨j, found⟩ := List.mem_iff_getElem?.1 member
      rw [List.getElem?_drop] at found
      exact others _ x found (by omega)
  · rintro ⟨front, back⟩ j x found other
    rcases Nat.lt_or_gt_of_ne other with before | behind
    · exact front x (List.mem_iff_getElem?.2 ⟨j, by rw [List.getElem?_take_of_lt before, found]⟩)
    · refine back x (List.mem_iff_getElem?.2 ⟨j - (i + 1), ?_⟩)
      rw [List.getElem?_drop, ← found]
      congr 1
      omega

section Places

variable (inside : i < (doc.siblings e).length) (index : doc.siblingIndex e = i)
  (preceding : doc.precedingElements e = ((doc.siblings e).take i).reverse)
include inside index preceding

/-- A counting pseudo-class counts the siblings in front of a position, from either end. -/
theorem nthPosition_add_one (kind : NthKind) :
    doc.nthPosition e kind + 1 = kind.position (doc.siblings e) i e := by
  have sameType (f : Element) : e.data.sameType f.data = decide (e.SameType f) := by
    rw [Bool.eq_iff_iff, ElementData.sameType_iff, decide_eq_true_iff]
  cases kind with
  | child => rw [nthPosition, index, NthKind.position]
  | lastChild =>
    rw [nthPosition, siblingCount, index, NthKind.position]
    omega
  | ofType =>
    rw [nthPosition, preceding, NthKind.position, ← List.countP_eq_length_filter,
      List.countP_reverse, Nat.add_comm]
    simp only [sameType]
  | lastOfType =>
    rw [nthPosition, followingElements, index, NthKind.position, ← List.countP_eq_length_filter,
      Nat.add_comm]
    simp only [sameType]

theorem oneMeans_iff_position {kind : NthKind}
    (first : kind.position (doc.siblings e) i e = 1 ↔ condition) : kind.OneMeans doc e condition := by
  intro arguments spelled
  obtain ⟨m, compiled, accepts⟩ := @Chain.means_counting doc e kind arguments _ spelled
  refine ⟨m, compiled, accepts.trans (Iff.trans ?_ first)⟩
  rw [nthPosition_add_one inside index preceding]
  constructor
  · rintro ⟨n, same⟩
    have : (kind.position (doc.siblings e) i e : Int) = 0 * n + 1 := same
    omega
  · intro same
    refine ⟨0, ?_⟩
    rw [same]
    rfl

end Places

/-- **The structural pseudo-classes say where an element stands**, in every document that a program
can come to. -/
theorem placed_of_reachable (reachable : Reachable doc) (here : doc.Has e) :
    ∃ i, doc.Placed e i := by
  obtain ⟨start, made, edits⟩ := reachable
  have linked := edits.linked made.linked
  obtain ⟨i, inside, place, index, preceding⟩ := linked.exists_place here
  have one {kind : NthKind} {condition : Prop}
      (first : kind.position (doc.siblings e) i e = 1 ↔ condition) :
      kind.OneMeans doc e condition := oneMeans_iff_position inside index preceding first
  refine ⟨i, ?_⟩
  constructor
  case place => exact place
  case counting =>
    intro kind p
    refine ⟨AnPlusB.exists_parse?_eq_some p, fun arguments spelled => ?_⟩
    have means := @Chain.means_counting doc e kind arguments p spelled
    rw [nthPosition_add_one inside index preceding] at means
    exact means
  case firstChild =>
    refine ⟨Chain.means_ofPseudoClass ?_, one NthKind.position_child_eq_one_iff,
      .test .hasPrevious, rfl, ?_⟩
    · rw [PseudoClass.Holds, index]
    · have full : doc.siblings e ≠ [] := List.ne_nil_of_length_pos (Nat.zero_lt_of_lt inside)
      rw [Matcher.accepts, Predicate.holds, previousElement?, List.isSome_head?, preceding, Ne,
        List.reverse_eq_nil_iff, List.take_eq_nil_iff, or_iff_left full]
  case lastChild =>
    refine ⟨Chain.means_ofPseudoClass ?_, one NthKind.position_lastChild_eq_one_iff⟩
    rw [PseudoClass.Holds, index, siblingCount]
  case firstOfType =>
    refine ⟨Chain.means_ofPseudoClass ?_, one NthKind.position_ofType_eq_one_iff⟩
    rw [PseudoClass.Holds, preceding]
    simp only [List.mem_reverse, ElementData.sameType_iff]
  case lastOfType =>
    refine ⟨Chain.means_ofPseudoClass ?_, one NthKind.position_lastOfType_eq_one_iff⟩
    rw [PseudoClass.Holds, followingElements, index]
    simp only [ElementData.sameType_iff]
  case onlyChild =>
    refine Chain.means_ofPseudoClass ?_
    rw [PseudoClass.Holds, siblingCount]
    omega
  case onlyOfType =>
    refine Chain.means_ofPseudoClass ?_
    rw [PseudoClass.Holds, index]
    simp only [ElementData.sameType_iff]
    exact forall_other_iff
  case root =>
    refine ⟨Chain.means_ofPseudoClass Iff.rfl, .test .hasParent, rfl, ?_⟩
    rw [Matcher.accepts, Predicate.holds, Option.isSome_iff_ne_none]

/-- Three items with a text and a comment between them. The second one is of another type, for it
is in a namespace. -/
def threeItems : Document :=
  let list := (empty false).appendNew root (.element { name := "ul" })
  let first := (list.appendNew 1 (.element { name := "li" })).appendNew 1 (.text "t")
  let other : ElementData := { name := "li", namespaceUrl? := some "u" }
  let second := (first.appendNew 1 (.element other)).appendNew 1 (.comment "c")
  second.appendNew 1 (.element { name := "li" })

/-- The third item is the second one of its type. -/
theorem placed_third_item :
    let item : Element := ⟨6, { name := "li" }⟩
    Reachable threeItems ∧ threeItems.Has item ∧ threeItems.Placed item 2 ∧
      NthKind.ofType.position (threeItems.siblings item) 2 item = 2 := by
  intro item
  have empty : Reachable (empty false) := ⟨_, .empty false, .refl⟩
  have list := empty.edit (@Edit.appendNew _ root (.element { name := "ul" }) (by decide))
  have first := list.edit (@Edit.appendNew _ 1 (.element { name := "li" }) (by decide))
  have text := first.edit (@Edit.appendNew _ 1 (.text "t") (by decide))
  have second := text.edit (@Edit.appendNew _ 1
    (.element { name := "li", namespaceUrl? := some "u" }) (by decide))
  have comment := second.edit (@Edit.appendNew _ 1 (.comment "c") (by decide))
  have reachable : Reachable threeItems :=
    comment.edit (@Edit.appendNew _ 1 (.element { name := "li" }) (by decide))
  have here : threeItems.Has item := by decide
  obtain ⟨i, placed⟩ := placed_of_reachable reachable here
  obtain rfl : 2 = i := (placed.place 2).1 (by decide)
  exact ⟨reachable, here, placed, by decide⟩

end Document

end Selectors
