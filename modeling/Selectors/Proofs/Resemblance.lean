import Mathlib.Data.List.Forall2
import Selectors.Proofs.Matching

/-!
Elements that no selector tells apart. If related elements of two documents find related parents,
ancestors and siblings in front (`Kinship`), a selector depends on its tests alone: where none of
them tells related elements apart, the selector holds of both or of neither (`Kinship.accepts_iff`).

A `Resemblance` relates elements with data that is alike, whose relatives are related one by one,
and which have the same place and the same language. That is all that a test can ask of an element,
except for whether it has content, so a selector without `:empty` does not tell them apart
(`Resemblance.accepts_iff`).
-/

namespace Selectors

/-- No test of a chain is `:empty`, not even in a negation. -/
def Chain.IgnoresContent (chain : Chain) : Prop :=
  .pseudoClass PseudoClass.empty.name ∉ chain.simples

/-! ## Related lists -/

section Lists

variable {α β : Type} {R : α → β → Prop} {p : α → Prop} {q : β → Prop} {xs : List α} {ys : List β}
  {a? : Option α} {b? : Option β}

theorem eq_none_iff_of_rel (related : Option.Rel R a? b?) : a? = none ↔ b? = none := by
  cases related with
  | some _ => exact iff_of_false (Option.some_ne_none _) (Option.some_ne_none _)
  | none => exact iff_of_true rfl rfl

theorem forall_some_iff_of_rel (related : Option.Rel R a? b?)
    (same : ∀ a b, R a b → (p a ↔ q b)) :
    (∀ a, a? = some a → p a) ↔ ∀ b, b? = some b → q b := by
  cases related with
  | some related => simpa using same _ _ related
  | none => simp

theorem exists_some_of_rel (related : Option.Rel R a? b?) {a : α} (found : a? = some a) :
    ∃ b, b? = some b ∧ R a b := by
  cases related with
  | some related =>
    cases found
    exact ⟨_, rfl, related⟩
  | none => cases found

theorem rel_flip (related : Option.Rel R a? b?) : Option.Rel (flip R) b? a? := by
  cases related with
  | some related => exact .some related
  | none => exact .none

theorem rel_getElem? (related : List.Forall₂ R xs ys) (i : Nat) : Option.Rel R xs[i]? ys[i]? := by
  induction related generalizing i with
  | nil => exact .none
  | cons first _ ih =>
    cases i with
    | zero => exact .some first
    | succ i => exact ih i

theorem rel_head? (related : List.Forall₂ R xs ys) : Option.Rel R xs.head? ys.head? := by
  rw [List.head?_eq_getElem?, List.head?_eq_getElem?]
  exact rel_getElem? related 0

theorem forall_mem_iff_of_forall₂ (related : List.Forall₂ R xs ys)
    (same : ∀ a b, R a b → (p a ↔ q b)) : (∀ a ∈ xs, p a) ↔ ∀ b ∈ ys, q b := by
  induction related with
  | nil => exact iff_of_true (List.forall_mem_nil _) (List.forall_mem_nil _)
  | cons first _ ih => rw [List.forall_mem_cons, List.forall_mem_cons, same _ _ first, ih]

theorem exists_mem_of_forall₂ (related : List.Forall₂ R xs ys) {a : α} (member : a ∈ xs) :
    ∃ b ∈ ys, R a b := by
  obtain ⟨i, found⟩ := List.mem_iff_getElem?.1 member
  obtain ⟨b, atPlace, here⟩ := exists_some_of_rel (rel_getElem? related i) found
  exact ⟨b, List.mem_of_getElem? atPlace, here⟩

end Lists

/-! ## What a selector depends on -/

/-- The simple selector is a single test and no negation. -/
def Simple.IsTest (simple : Simple) : Prop := ∀ inner, simple ≠ .negation inner

/-- A simple selector holds of both of two related elements or of neither. -/
def Simple.Agrees (doc doc' : Document) (R : Element → Element → Prop) (simple : Simple) : Prop :=
  ∀ e e', R e e' → (simple.Holds doc e ↔ simple.Holds doc' e')

/-- The parents, the ancestors and the siblings in front of related elements are related. -/
structure Kinship (doc doc' : Document) (R : Element → Element → Prop) : Prop where
  parent : ∀ {e e'}, R e e' → Option.Rel R (doc.parentElement? e) (doc'.parentElement? e')
  ancestors : ∀ {e e'}, R e e' → List.Forall₂ R (doc.ancestorElements e) (doc'.ancestorElements e')
  preceding : ∀ {e e'}, R e e' →
    List.Forall₂ R (doc.precedingElements e) (doc'.precedingElements e')

section Depending

variable {doc doc' : Document} {R : Element → Element → Prop} {e e' f : Element} {chain : Chain}

mutual

/-- A simple selector agrees if the tests in it do. -/
theorem Simple.agrees_of_parts : ∀ {simple : Simple},
    (∀ part ∈ simple.parts, part.IsTest → part.Agrees doc doc' R) → simple.Agrees doc doc' R
  | .typeName _, agree => agree _ (List.mem_singleton_self _) nofun
  | .inNamespace _, agree => agree _ (List.mem_singleton_self _) nofun
  | .className _, agree => agree _ (List.mem_singleton_self _) nofun
  | .id _, agree => agree _ (List.mem_singleton_self _) nofun
  | .hasAttribute _, agree => agree _ (List.mem_singleton_self _) nofun
  | .pseudoClass _, agree => agree _ (List.mem_singleton_self _) nofun
  | .functional _ _, agree => agree _ (List.mem_singleton_self _) nofun
  | .negation inner, agree => by
    intro e e' related
    have inside := fun part member => agree part (List.mem_cons_of_mem _ member)
    rw [Simple.Holds, Simple.Holds, Simple.allHold_iff_of_parts inside related]

theorem Simple.allHold_iff_of_parts : ∀ {compound : List Simple} {e e' : Element},
    (∀ part ∈ Simple.partsAll compound, part.IsTest → part.Agrees doc doc' R) → R e e' →
      (Simple.AllHold doc e compound ↔ Simple.AllHold doc' e' compound)
  | [], _, _, _, _ => Iff.rfl
  | simple :: rest, e, e', agree, related => by
    rw [Simple.partsAll] at agree
    obtain ⟨here, behind⟩ := List.forall_mem_append.1 agree
    rw [Simple.AllHold, Simple.AllHold, Simple.agrees_of_parts here e e' related,
      Simple.allHold_iff_of_parts behind related]

end

/-- A compound whose tests agree holds of both of two related elements or of neither. -/
theorem Compound.holds_iff_of_parts {compound : Compound}
    (agree : ∀ part ∈ Simple.partsAll compound, part.IsTest → part.Agrees doc doc' R)
    (related : R e e') :
    Compound.Holds doc e compound ↔ Compound.Holds doc' e' compound := by
  rw [← Simple.allHold_iff, ← Simple.allHold_iff, Simple.allHold_iff_of_parts agree related]

theorem Simple.Agrees.swap {simple : Simple} (agrees : simple.Agrees doc doc' R) :
    simple.Agrees doc' doc (flip R) :=
  fun e e' related => (agrees e' e related).symm

namespace Kinship

theorem swap (kinship : Kinship doc doc' R) : Kinship doc' doc (flip R) where
  parent related := rel_flip (kinship.parent related)
  ancestors related := .flip (kinship.ancestors related)
  preceding related := .flip (kinship.preceding related)

/-- What a combinator finds in one document has its counterpart in the other one. -/
theorem exists_relative (kinship : Kinship doc doc' R) (related : R e e') {k : Combinator}
    (relates : k.Relates doc f e) : ∃ f', k.Relates doc' f' e' ∧ R f f' := by
  cases k with
  | descendant => exact exists_mem_of_forall₂ (kinship.ancestors related) relates
  | child => exact exists_some_of_rel (kinship.parent related) relates
  | nextSibling => exact exists_some_of_rel (rel_head? (kinship.preceding related)) relates
  | subsequentSibling => exact exists_mem_of_forall₂ (kinship.preceding related) relates

/-- Witnesses that end in an element have counterparts that end in the related one. -/
theorem exists_witnesses (kinship : Kinship doc doc' R)
    (agree : ∀ part ∈ chain.simples, part.IsTest → part.Agrees doc doc' R) (related : R e e')
    (found : ∃ es, chain.Witnessed doc es ∧ es.getLast? = some e) :
    ∃ es', chain.Witnessed doc' es' ∧ es'.getLast? = some e' := by
  induction chain generalizing e e' with
  | single subject =>
    obtain ⟨es, witnessed, last⟩ := found
    obtain ⟨g, rfl, holds⟩ := Chain.witnessed_single.1 witnessed
    obtain rfl : g = e := Option.some.inj last
    rw [Compound.holds_iff_of_parts agree related] at holds
    exact ⟨[e'], Chain.witnessed_single.2 ⟨e', rfl, holds⟩, rfl⟩
  | joined left k subject ih =>
    rw [Chain.simples] at agree
    obtain ⟨before, own⟩ := List.forall_mem_append.1 agree
    obtain ⟨es, witnessed, last⟩ := found
    obtain ⟨fs, f, g, rfl, witnessedBefore, lastBefore, relates, holds⟩ :=
      Chain.witnessed_joined.1 witnessed
    obtain rfl : g = e := by simpa using last
    rw [Compound.holds_iff_of_parts own related] at holds
    obtain ⟨f', relates', relatedBefore⟩ := kinship.exists_relative related relates
    obtain ⟨fs', before', lastBefore'⟩ :=
      ih before relatedBefore ⟨fs, witnessedBefore, lastBefore⟩
    refine ⟨fs' ++ [e'], Chain.witnessed_joined.2 ?_, List.getLast?_concat⟩
    exact ⟨fs', f', e', rfl, before', lastBefore', relates', holds⟩

/-- A selector whose tests agree holds of both of two related elements or of neither. -/
theorem accepts_iff (kinship : Kinship doc doc' R) {m : Matcher} (compiled : chain.matcher = .ok m)
    (agree : ∀ part ∈ chain.simples, part.IsTest → part.Agrees doc doc' R) (related : R e e') :
    m.accepts doc e = true ↔ m.accepts doc' e' = true := by
  have agreeBack := fun part member test => (agree part member test).swap
  rw [Chain.matcher_accepts_iff compiled, Chain.matcher_accepts_iff compiled]
  exact ⟨kinship.exists_witnesses agree related, kinship.swap.exists_witnesses agreeBack related⟩

end Kinship

end Depending

/-! ## Alike elements -/

/-- The data of two elements is alike: they have the same name, the same namespace and the same
value for every attribute. The attributes may be in another order. -/
structure ElementData.Alike (d d' : ElementData) : Prop where
  name : d.name = d'.name
  namespaceUrl? : d.namespaceUrl? = d'.namespaceUrl?
  attributes : ∀ url name, d.getAttribute? url name = d'.getAttribute? url name

namespace ElementData.Alike

variable {d d' f f' : ElementData}

theorem namespaceUrl (alike : d.Alike d') : d.namespaceUrl = d'.namespaceUrl := by
  rw [ElementData.namespaceUrl, ElementData.namespaceUrl, alike.namespaceUrl?]

theorem sameType (alike : d.Alike d') (other : f.Alike f') : d.sameType f = d'.sameType f' := by
  unfold ElementData.sameType
  rw [alike.name, other.name, alike.namespaceUrl, other.namespaceUrl]

theorem isHtmlNamed_iff (alike : d.Alike d') {names : List String} :
    d.IsHtmlNamed names ↔ d'.IsHtmlNamed names := by
  unfold IsHtmlNamed
  rw [alike.name, alike.namespaceUrl?]

theorem carries_iff (alike : d.Alike d') {name : String} : d.Carries name ↔ d'.Carries name := by
  unfold Carries
  rw [alike.attributes]

end ElementData.Alike

/-- Related elements of two documents have data that is alike, and what they find around them is
related again. -/
structure Resemblance (doc doc' : Document) (R : Element → Element → Prop) : Prop where
  data : ∀ {e e'}, R e e' → e.data.Alike e'.data
  parent : ∀ {e e'}, R e e' → Option.Rel R (doc.parentElement? e) (doc'.parentElement? e')
  ancestors : ∀ {e e'}, R e e' → List.Forall₂ R (doc.ancestorElements e) (doc'.ancestorElements e')
  siblings : ∀ {e e'}, R e e' → List.Forall₂ R (doc.siblings e) (doc'.siblings e')
  preceding : ∀ {e e'}, R e e' →
    List.Forall₂ R (doc.precedingElements e) (doc'.precedingElements e')
  index : ∀ {e e'}, R e e' → doc.siblingIndex e = doc'.siblingIndex e'
  language : ∀ {e e'}, R e e' → doc.language? e = doc'.language? e'

namespace Resemblance

variable {doc doc' : Document} {R : Element → Element → Prop} {e e' f : Element}

theorem kinship (resemblance : Resemblance doc doc' R) : Kinship doc doc' R where
  parent := resemblance.parent
  ancestors := resemblance.ancestors
  preceding := resemblance.preceding

section Asking

variable (resemblance : Resemblance doc doc' R) (related : R e e')
include resemblance related

theorem siblingCount_eq : doc.siblingCount e = doc'.siblingCount e' :=
  (resemblance.siblings related).length_eq

theorem following : List.Forall₂ R (doc.followingElements e) (doc'.followingElements e') := by
  unfold Document.followingElements
  rw [resemblance.index related]
  exact List.forall₂_drop _ (resemblance.siblings related)

theorem sameType_eq {s s' : Element} (others : R s s') :
    e.data.sameType s.data = e'.data.sameType s'.data :=
  (resemblance.data related).sameType (resemblance.data others)

theorem nthPosition_eq (kind : NthKind) : doc.nthPosition e kind = doc'.nthPosition e' kind := by
  have same : Relator.LiftFun R Iff (fun s => e.data.sameType s.data = true)
      (fun s => e'.data.sameType s.data = true) := by
    intro s s' others
    dsimp only
    rw [resemblance.sameType_eq related others]
  cases kind with
  | child => exact resemblance.index related
  | lastChild =>
    unfold Document.nthPosition
    rw [resemblance.siblingCount_eq related, resemblance.index related]
  | ofType => exact (List.rel_filter same (resemblance.preceding related)).length_eq
  | lastOfType => exact (List.rel_filter same (resemblance.following related)).length_eq

/-! ## What is asked of one element -/

theorem pseudoClass_iff {c : PseudoClass} (other : c ≠ .empty) :
    c.Holds doc e ↔ c.Holds doc' e' := by
  have alike := resemblance.data related
  have differs (s s' : Element) (others : R s s') :
      ¬ e.data.sameType s.data = true ↔ ¬ e'.data.sameType s'.data = true := by
    rw [resemblance.sameType_eq related others]
  cases c with
  | link | disabled | enabled | checked =>
    simp only [PseudoClass.Holds, ElementData.CanLink, ElementData.IsFormControl,
      alike.isHtmlNamed_iff, alike.carries_iff]
  | visited | hover | active | focus | target => exact Iff.rfl
  | root => exact eq_none_iff_of_rel (resemblance.parent related)
  | firstChild => rw [PseudoClass.Holds, PseudoClass.Holds, resemblance.index related]
  | lastChild =>
    rw [PseudoClass.Holds, PseudoClass.Holds, resemblance.index related,
      resemblance.siblingCount_eq related]
  | firstOfType => exact forall_mem_iff_of_forall₂ (resemblance.preceding related) differs
  | lastOfType => exact forall_mem_iff_of_forall₂ (resemblance.following related) differs
  | onlyChild => rw [PseudoClass.Holds, PseudoClass.Holds, resemblance.siblingCount_eq related]
  | onlyOfType =>
    unfold PseudoClass.Holds
    rw [resemblance.index related]
    refine forall_congr' fun i => ?_
    exact forall_some_iff_of_rel (rel_getElem? (resemblance.siblings related) i)
      fun s s' others => imp_congr_right fun _ => differs s s' others
  | empty => exact absurd rfl other

theorem functional_iff {c : FunctionalPseudoClass} {arguments : List Token} :
    c.Holds doc e arguments ↔ c.Holds doc' e' arguments := by
  cases c with
  | lang =>
    rw [FunctionalPseudoClass.Holds, FunctionalPseudoClass.Holds, resemblance.language related]
  | nth kind =>
    rw [FunctionalPseudoClass.Holds, FunctionalPseudoClass.Holds,
      resemblance.nthPosition_eq related]

theorem attribute_iff {a : AttributeSelector} : a.Holds e ↔ a.Holds e' := by
  unfold AttributeSelector.Holds
  simp only [(resemblance.data related).attributes]

end Asking

/-- A test other than `:empty` does not tell related elements apart. -/
theorem agrees (resemblance : Resemblance doc doc' R) {simple : Simple} (test : simple.IsTest)
    (notEmpty : simple ≠ .pseudoClass PseudoClass.empty.name) : simple.Agrees doc doc' R := by
  intro e e' related
  have alike := resemblance.data related
  cases simple with
  | typeName name => rw [Simple.Holds, Simple.Holds, alike.name]
  | inNamespace url => rw [Simple.Holds, Simple.Holds, alike.namespaceUrl]
  | className name =>
    rw [Simple.Holds, Simple.Holds, ElementData.classes, ElementData.classes, alike.attributes]
  | id value =>
    rw [Simple.Holds, Simple.Holds, ElementData.id?, ElementData.id?, alike.attributes]
  | hasAttribute selector =>
    rw [Simple.Holds, Simple.Holds]
    exact resemblance.attribute_iff related
  | pseudoClass name =>
    rw [Simple.Holds, Simple.Holds]
    refine exists_congr fun c => and_congr_right fun known => resemblance.pseudoClass_iff related ?_
    rintro rfl
    exact notEmpty (congrArg _ (PseudoClass.ofName?_eq_some_iff.1 known))
  | functional name arguments =>
    rw [Simple.Holds, Simple.Holds]
    exact exists_congr fun c => and_congr_right fun _ => resemblance.functional_iff related
  | negation inner => exact absurd rfl (test inner)

/-- A selector that does not ask for content cannot tell related elements apart. -/
theorem accepts_iff (resemblance : Resemblance doc doc' R) {chain : Chain} {m : Matcher}
    (compiled : chain.matcher = .ok m) (ignores : chain.IgnoresContent) (related : R e e') :
    m.accepts doc e = true ↔ m.accepts doc' e' = true :=
  resemblance.kinship.accepts_iff compiled
    (fun _ member test => resemblance.agrees test fun same => ignores (same ▸ member)) related

end Resemblance

end Selectors
