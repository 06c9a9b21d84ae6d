import Mathlib.Data.List.Basic
import Selectors.Proofs.Basic
import Selectors.Proofs.Simples
import Selectors.PseudoClass

/-!
What selectors mean, said of elements and without a matcher. A simple selector holds of an element
(`Simple.Holds`) if the test that it denotes does, a compound (`Compound.Holds`) if all its members
hold. A chain describes an element through witnesses (`Chain.Witnessed`): one element for each of
its compounds, each standing to the next one as the combinator between the two says.

Relatives are the ones that `Document` gives. Nothing here folds a constant: a selector that can
never match is one that holds of no element. The elements that can be links or be disabled are
named here (`ElementData.CanLink`, `ElementData.IsFormControl`); the names that a pseudo-class is
compiled with are the same.
-/

namespace Selectors

/-! ## Attributes -/

/-- How the value of an attribute has to stand to the operand of a selector. Words and the pieces of
a value are never empty. -/
def AttributeOperator.Relates (value operand : String) : AttributeOperator → Prop
  | .equals => value = operand
  | .includes => operand ∈ words value
  | .dashMatch => value = operand ∨ operand.toList ++ ['-'] <+: value.toList
  | .startsWith => operand ≠ "" ∧ operand.toList <+: value.toList
  | .endsWith => operand ≠ "" ∧ operand.toList <:+ value.toList
  | .contains => operand ≠ "" ∧ operand.toList <:+: value.toList

/-- The element has the attribute, and its value stands to the operand as the operator says. -/
def AttributeSelector.Holds (a : AttributeSelector) (e : Element) : Prop :=
  ∃ url value, a.namespaceUrl? = some url ∧ e.data.getAttribute? url a.name = some value ∧
    ∀ o, a.operator? = some o → o.Relates value a.operand

/-! ## Pseudo-classes -/

namespace ElementData

/-- The element is an HTML element with one of some names. -/
def IsHtmlNamed (e : ElementData) (names : List String) : Prop :=
  e.namespaceUrl? = some htmlNamespace ∧ e.name ∈ names

/-- The element has an attribute in no namespace, whatever its value. -/
def Carries (e : ElementData) (name : String) : Prop :=
  ∃ value, e.getAttribute? "" name = some value

/-- The element is an HTML element that can be a link. -/
def CanLink (e : ElementData) : Prop := e.IsHtmlNamed ["a", "area", "link"]

/-- The element is an HTML element that can be disabled. -/
def IsFormControl (e : ElementData) : Prop :=
  e.IsHtmlNamed
    ["button", "input", "select", "textarea", "option", "optgroup", "menuitem", "fieldset"]

theorem isHtmlNamed_linkElements {e : ElementData} : e.IsHtmlNamed linkElements ↔ e.CanLink :=
  Iff.rfl

theorem isHtmlNamed_formControls {e : ElementData} :
    e.IsHtmlNamed formControls ↔ e.IsFormControl :=
  Iff.rfl

end ElementData

/-- What a pseudo-class without arguments says of an element. -/
def PseudoClass.Holds (doc : Document) (e : Element) : PseudoClass → Prop
  | .link => e.data.CanLink ∧ e.data.Carries "href"
  | .enabled =>
    (e.data.IsFormControl ∧ ¬ e.data.Carries "disabled") ∨
      (e.data.CanLink ∧ e.data.Carries "href")
  | .disabled => e.data.IsFormControl ∧ e.data.Carries "disabled"
  | .checked =>
    (e.data.IsHtmlNamed ["input", "menuitem"] ∧ e.data.Carries "checked") ∨
      (e.data.IsHtmlNamed ["option"] ∧ e.data.Carries "selected")
  | .visited => False
  | .hover => False
  | .active => False
  | .focus => False
  | .target => False
  | .root => doc.parentElement? e = none
  | .firstChild => doc.siblingIndex e = 0
  | .lastChild => doc.siblingIndex e + 1 = doc.siblingCount e
  | .firstOfType => ∀ s ∈ doc.precedingElements e, ¬ e.data.sameType s.data
  | .lastOfType => ∀ s ∈ doc.followingElements e, ¬ e.data.sameType s.data
  | .onlyChild => doc.siblingCount e = 1
  | .onlyOfType =>
    ∀ i s, (doc.siblings e)[i]? = some s → i ≠ doc.siblingIndex e → ¬ e.data.sameType s.data
  | .empty => ¬ doc.hasContent e

/-- What a pseudo-class with arguments says of an element. A position counts from one. -/
def FunctionalPseudoClass.Holds (doc : Document) (e : Element) (arguments : List Token) :
    FunctionalPseudoClass → Prop
  | .lang =>
    ∃ range language, AnPlusB.solid arguments = [.ident range] ∧ doc.language? e = some language ∧
      (language = range ∨ range.toList ++ ['-'] <+: language.toList)
  | .nth kind =>
    ∃ p, AnPlusB.parse? arguments = some p ∧
      ∃ n : Nat, (doc.nthPosition e kind : Int) + 1 = p.step.toInt * n + p.offset.toInt

/-! ## Simple selectors and compounds -/

mutual

/-- The test that a simple selector denotes holds of an element. -/
def Simple.Holds (doc : Document) (e : Element) : Simple → Prop
  | .typeName name => e.data.name = name
  | .inNamespace url => e.data.namespaceUrl = url
  | .className name => name ∈ e.data.classes
  | .id value => e.data.id? = some value
  | .hasAttribute selector => selector.Holds e
  | .pseudoClass name => ∃ c, PseudoClass.ofName? name = some c ∧ c.Holds doc e
  | .functional name arguments =>
    ∃ c, FunctionalPseudoClass.ofName? name = some c ∧ c.Holds doc e arguments
  | .negation inner => ¬ Simple.AllHold doc e inner

/-- Every one of several simple selectors holds of an element. -/
def Simple.AllHold (doc : Document) (e : Element) : List Simple → Prop
  | [] => True
  | simple :: rest => simple.Holds doc e ∧ Simple.AllHold doc e rest

end

/-- All members of a compound hold of an element; of the empty one they always do. -/
def Compound.Holds (doc : Document) (e : Element) (c : Compound) : Prop :=
  ∀ simple ∈ c, simple.Holds doc e

theorem Simple.allHold_iff {doc : Document} {e : Element} {c : Compound} :
    Simple.AllHold doc e c ↔ Compound.Holds doc e c := by
  induction c with
  | nil => simp [Simple.AllHold, Compound.Holds]
  | cons simple rest ih =>
    rw [Simple.AllHold, ih, Compound.Holds, Compound.Holds, List.forall_mem_cons]

/-! ## Chains -/

/-- How the element of one compound, `f`, has to stand to the element of the next one. -/
def Combinator.Relates (doc : Document) (f e : Element) : Combinator → Prop
  | .descendant => f ∈ doc.ancestorElements e
  | .child => doc.parentElement? e = some f
  | .nextSibling => doc.previousElement? e = some f
  | .subsequentSibling => f ∈ doc.precedingElements e

namespace Chain

/-- The compounds of a chain in the order they are written. -/
def compounds : Chain → List Compound
  | .single subject => [subject]
  | .joined left _ subject => left.compounds ++ [subject]

/-- The combinators of a chain in the order they are written. -/
def combinators : Chain → List Combinator
  | .single _ => []
  | .joined left k _ => left.combinators ++ [k]

theorem length_compounds (chain : Chain) :
    chain.compounds.length = chain.combinators.length + 1 := by
  induction chain with
  | single => rfl
  | joined left k subject ih => simp [compounds, combinators, ih]

/-- One element for each compound, of which it holds, and each related to the next one by the
combinator between the two compounds. -/
structure Witnessed (doc : Document) (chain : Chain) (es : List Element) : Prop where
  length_eq : es.length = chain.compounds.length
  holds : ∀ (i : Nat) c e, chain.compounds[i]? = some c → es[i]? = some e → Compound.Holds doc e c
  relates : ∀ (i : Nat) k f e, chain.combinators[i]? = some k → es[i]? = some f →
    es[i + 1]? = some e → k.Relates doc f e

theorem witnessed_single {doc : Document} {subject : Compound} {es : List Element} :
    (Chain.single subject).Witnessed doc es ↔ ∃ e, es = [e] ∧ Compound.Holds doc e subject := by
  constructor
  · rintro ⟨length, holds, -⟩
    obtain ⟨e, rfl⟩ := List.length_eq_one_iff.1 length
    exact ⟨e, rfl, holds 0 subject e rfl rfl⟩
  · rintro ⟨e, rfl, holds⟩
    refine ⟨rfl, fun i c f hc hf => ?_, fun i k f e hk => by simp [combinators] at hk⟩
    cases i with
    | zero =>
      cases hc
      cases hf
      exact holds
    | succ i => simp at hf

/-- Witnesses of a longer chain are witnesses of the shorter one and one more element, to which the
last of them is related. -/
theorem witnessed_joined {doc : Document} {left : Chain} {k : Combinator} {subject : Compound}
    {es : List Element} :
    (Chain.joined left k subject).Witnessed doc es ↔
      ∃ fs f e, es = fs ++ [e] ∧ left.Witnessed doc fs ∧ fs.getLast? = some f ∧
        k.Relates doc f e ∧ Compound.Holds doc e subject := by
  have count := left.length_compounds
  constructor
  · rintro ⟨length, holds, relates⟩
    simp only [compounds, List.length_append, List.length_singleton] at length
    rcases List.eq_nil_or_concat es with rfl | ⟨fs, e, rfl⟩
    · simp at length
    rw [List.concat_eq_append] at length holds relates ⊢
    have size : fs.length = left.compounds.length := by simpa using length
    obtain ⟨f, atLast⟩ : ∃ f, fs[left.combinators.length]? = some f :=
      ⟨_, List.getElem?_eq_getElem (by omega)⟩
    refine ⟨fs, f, e, rfl, ⟨size, ?_, ?_⟩, ?_, ?_, ?_⟩
    · intro i c g hc hg
      exact holds i c g (getElem?_concat_iff.2 (Or.inl hc)) (getElem?_concat_iff.2 (Or.inl hg))
    · intro i j g g' hj hg hg'
      exact relates i j g g' (getElem?_concat_iff.2 (Or.inl hj))
        (getElem?_concat_iff.2 (Or.inl hg)) (getElem?_concat_iff.2 (Or.inl hg'))
    · rw [List.getLast?_eq_getElem?, ← atLast]
      congr 1
      omega
    · exact relates left.combinators.length k f e (getElem?_concat_iff.2 (Or.inr ⟨rfl, rfl⟩))
        (getElem?_concat_iff.2 (Or.inl atLast)) (getElem?_concat_iff.2 (Or.inr ⟨by omega, rfl⟩))
    · exact holds left.compounds.length subject e (getElem?_concat_iff.2 (Or.inr ⟨rfl, rfl⟩))
        (getElem?_concat_iff.2 (Or.inr ⟨size.symm, rfl⟩))
  · rintro ⟨fs, f, e, rfl, ⟨size, holds, relates⟩, last, related, own⟩
    refine ⟨by simp [compounds, size], ?_, ?_⟩
    · intro i c g hc hg
      rcases getElem?_concat_iff.1 hc with hc | ⟨rfl, rfl⟩
      · rcases getElem?_concat_iff.1 hg with hg | ⟨rfl, rfl⟩
        · exact holds i c g hc hg
        · rw [List.getElem?_eq_none (by omega)] at hc
          cases hc
      · rcases getElem?_concat_iff.1 hg with hg | ⟨-, rfl⟩
        · rw [List.getElem?_eq_none (by omega)] at hg
          cases hg
        · exact own
    · intro i j g g' hj hg hg'
      rw [combinators] at hj
      rcases getElem?_concat_iff.1 hj with hj | ⟨rfl, rfl⟩
      · have inside := (List.getElem?_eq_some_iff.1 hj).1
        rcases getElem?_concat_iff.1 hg with hg | ⟨rfl, rfl⟩
        · rcases getElem?_concat_iff.1 hg' with hg' | ⟨same, rfl⟩
          · exact relates i j g g' hj hg hg'
          · omega
        · omega
      · rw [List.getLast?_eq_getElem?] at last
        rcases getElem?_concat_iff.1 hg with old | ⟨same, rfl⟩
        · have place : fs.length - 1 = left.combinators.length := by omega
          rw [place, old] at last
          cases last
          rcases getElem?_concat_iff.1 hg' with old' | ⟨-, rfl⟩
          · rw [List.getElem?_eq_none (by omega)] at old'
            cases old'
          · exact related
        · omega

end Chain

end Selectors
