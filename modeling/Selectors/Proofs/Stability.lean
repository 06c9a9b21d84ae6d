import Selectors.Proofs.Loading
import Selectors.Proofs.Relatives
import Selectors.Proofs.Resemblance

/-!
What is appended to a document changes nothing for selectors that only look ahead of it. A new node
stands behind everything below its parent: no element gains an ancestor or a sibling in front, and
no place counted from the first sibling moves. Only the end of one list of siblings, the content of
the parent and the languages that hang on pragmas can change. So a selector that asks for none of
these (`Chain.IsStable`) matches the same elements as before (`accepts_appendNew_iff`).

The elements of the document are related to themselves; `Appending.kinship` frames the walks and
`Appending.agrees` the tests.
-/

namespace Selectors

/-! ## Selectors that only look ahead -/

/-- The test does not count siblings from the last one, and asks neither for the siblings altogether
nor for content or a language. -/
def Simple.IsStable : Simple → Prop
  | .pseudoClass name =>
    name ∉ ["last-child", "last-of-type", "only-child", "only-of-type", "empty"]
  | .functional name _ => name ∉ ["nth-last-child", "nth-last-of-type", "lang"]
  | _ => True

/-- All tests of a chain only look ahead, those in negations too. -/
def Chain.IsStable (chain : Chain) : Prop := ∀ part ∈ chain.simples, part.IsStable

namespace Document

variable {doc : Document} {e : Element} {parent id : NodeId} {content : Content}

/-! ## What stays where it is -/

theorem lt_of_node? {node : Node} (found : doc.node? id = some node) : id < doc.size :=
  (Array.getElem?_eq_some_iff.1 found).1

theorem Has.lt (here : doc.Has e) : e.id < doc.size := by
  obtain ⟨node, found, -⟩ := Option.map_eq_some_iff.1 here
  exact lt_of_node? found

theorem parent?_appendNew_of_lt (old : id < doc.size) :
    (doc.appendNew parent content).parent? id = doc.parent? id := by
  unfold parent?
  rw [node?_appendNew_of_lt old, Option.bind_map]
  rfl

theorem element?_appendNew_of_lt (old : id < doc.size) :
    (doc.appendNew parent content).element? id = doc.element? id := by
  have same : ((doc.appendNew parent content).node? id).map Node.content =
      (doc.node? id).map Node.content := by
    rw [node?_appendNew_of_lt old, Option.map_map]
    rfl
  refine Option.ext fun e => ?_
  rw [element?_eq_some_iff, element?_eq_some_iff]
  refine and_congr_right fun here => ?_
  rw [Has, Has, here, same]

theorem children_appendNew (inside : parent < doc.size) (id : NodeId) :
    (doc.appendNew parent content).children id =
      if id = parent then doc.children id ++ [doc.size] else doc.children id := by
  have stillInside := Nat.lt_of_lt_of_le inside (sameLinks_alloc doc content).size_le
  rw [appendNew, children_append stillInside, (sameLinks_alloc doc content).children]

theorem Has.appendNew (here : doc.Has e) : (doc.appendNew parent content).Has e := by
  have found := here.element?
  have same : (doc.appendNew parent content).element? e.id = doc.element? e.id :=
    element?_appendNew_of_lt here.lt
  rw [← same] at found
  exact (element?_eq_some_iff.1 found).2

/-- A linked document and a node in it, below which something is appended. -/
structure Appending (doc : Document) (parent : NodeId) : Prop where
  linked : doc.Linked
  parent_lt : parent < doc.size

/-- An element of the document, which stays what it is. -/
def Stays (doc : Document) (e e' : Element) : Prop := e' = e ∧ doc.Has e

namespace Appending

variable (appending : doc.Appending parent) (here : doc.Has e)
include appending

theorem linked_appendNew : (doc.appendNew parent content).Linked :=
  (Edit.appendNew content appending.parent_lt).linked appending.linked

include here

theorem parentElement?_eq :
    (doc.appendNew parent content).parentElement? e = doc.parentElement? e := by
  unfold parentElement?
  rw [parent?_appendNew_of_lt here.lt]
  refine Option.bind_congr fun above link => ?_
  exact element?_appendNew_of_lt (appending.linked.parent_lt e.id above link)

theorem ancestorElements_eq :
    (doc.appendNew parent content).ancestorElements e = doc.ancestorElements e := by
  have linked := appending.linked
  have grown : (doc.appendNew parent content).Linked := appending.linked_appendNew
  revert here
  refine induction_up (motive := fun e => doc.Has e →
    (doc.appendNew parent content).ancestorElements e = doc.ancestorElements e)
    linked.acyclic linked.parent_lt (fun e ih here => ?_) e
  rw [Document.ancestorElements_eq grown.acyclic grown.parent_lt,
    Document.ancestorElements_eq linked.acyclic linked.parent_lt,
    appending.parentElement?_eq here]
  cases above : doc.parentElement? e with
  | none => rfl
  | some p =>
    have inside := (parentElement?_eq_some_iff.1 above).2
    rw [Option.elim_some, Option.elim_some, ih p above inside]

variable (content) in
/-- Siblings can only be gained behind all others. -/
theorem exists_siblings_eq : ∃ new,
    (doc.appendNew parent content).siblings e = doc.siblings e ++ new := by
  have linked := appending.linked
  have link : (doc.appendNew parent content).parent? e.id = doc.parent? e.id :=
    parent?_appendNew_of_lt here.lt
  cases above : doc.parent? e.id with
  | none =>
    rw [above] at link
    exact ⟨[], by rw [siblings_of_parent?_eq_none link, siblings_of_parent?_eq_none above]; rfl⟩
  | some p =>
    rw [above] at link
    have same : (doc.children p).filterMap (doc.appendNew parent content).element? =
        (doc.children p).filterMap doc.element? :=
      List.filterMap_congr fun id member =>
        element?_appendNew_of_lt (linked.children_lt p id member)
    rw [appending.linked_appendNew.siblings_eq link, linked.siblings_eq above,
      children_appendNew appending.parent_lt, ← same]
    split
    · exact ⟨_, List.filterMap_append⟩
    · exact ⟨[], (List.append_nil _).symm⟩

variable (content) in
theorem siblingIndex_eq_and_precedingElements_eq :
    (doc.appendNew parent content).siblingIndex e = doc.siblingIndex e ∧
      (doc.appendNew parent content).precedingElements e = doc.precedingElements e := by
  obtain ⟨new, grown⟩ := appending.exists_siblings_eq content here
  obtain ⟨i, inside, place, index, preceding⟩ := appending.linked.exists_place here
  obtain ⟨i', -, place', index', preceding'⟩ :=
    appending.linked_appendNew.exists_place here.appendNew
  have atIndex : ((doc.appendNew parent content).siblings e)[i]? = some e := by
    rw [grown, List.getElem?_append_left inside]
    exact (place i).2 rfl
  obtain rfl : i = i' := (place' i).1 atIndex
  rw [index, index', preceding, preceding', grown, List.take_append_of_le_length inside.le]
  exact ⟨rfl, rfl⟩

end Appending

/-! ## What selectors see -/

namespace Appending

variable (appending : doc.Appending parent)
include appending

theorem kinship : Kinship doc (doc.appendNew parent content) doc.Stays where
  parent := by
    rintro _ e ⟨rfl, here⟩
    rw [appending.parentElement?_eq here]
    cases above : doc.parentElement? e with
    | none => exact .none
    | some p => exact .some ⟨rfl, (parentElement?_eq_some_iff.1 above).2⟩
  ancestors := by
    rintro _ e ⟨rfl, here⟩
    rw [appending.ancestorElements_eq here]
    exact List.forall₂_same.2 fun f member => ⟨rfl, has_of_mem_leadingElements member⟩
  preceding := by
    rintro _ e ⟨rfl, here⟩
    rw [(appending.siblingIndex_eq_and_precedingElements_eq _ here).2]
    exact List.forall₂_same.2 fun f member => ⟨rfl, (mem_filterMap_element?.1 member).2⟩

theorem pseudoClass_iff (here : doc.Has e) {c : PseudoClass}
    (stable : (Simple.pseudoClass c.name).IsStable) :
    c.Holds (doc.appendNew parent content) e ↔ c.Holds doc e := by
  obtain ⟨index, preceding⟩ :=
    appending.siblingIndex_eq_and_precedingElements_eq content here
  cases c with
  | link | enabled | disabled | checked => exact Iff.rfl
  | visited | hover | active | focus | target => exact Iff.rfl
  | root => rw [PseudoClass.Holds, PseudoClass.Holds, appending.parentElement?_eq here]
  | firstChild => rw [PseudoClass.Holds, PseudoClass.Holds, index]
  | firstOfType => rw [PseudoClass.Holds, PseudoClass.Holds, preceding]
  | lastChild | lastOfType | onlyChild | onlyOfType | empty => exact absurd (by decide) stable

theorem functional_iff (here : doc.Has e) {c : FunctionalPseudoClass} {arguments : List Token}
    (stable : (Simple.functional c.name arguments).IsStable) :
    c.Holds (doc.appendNew parent content) e arguments ↔ c.Holds doc e arguments := by
  obtain ⟨index, preceding⟩ :=
    appending.siblingIndex_eq_and_precedingElements_eq content here
  cases c with
  | lang => exact absurd (by decide) stable
  | nth kind =>
    have same : (doc.appendNew parent content).nthPosition e kind = doc.nthPosition e kind := by
      cases kind with
      | child => exact index
      | ofType => rw [nthPosition, nthPosition, preceding]
      | lastChild | lastOfType => exact absurd (by decide) stable
    rw [FunctionalPseudoClass.Holds, FunctionalPseudoClass.Holds, same]

theorem agrees {simple : Simple} (test : simple.IsTest) (stable : simple.IsStable) :
    simple.Agrees doc (doc.appendNew parent content) doc.Stays := by
  rintro _ e ⟨rfl, here⟩
  cases simple with
  | typeName | inNamespace | className | id | hasAttribute =>
    rw [Simple.Holds, Simple.Holds]
  | pseudoClass name =>
    rw [Simple.Holds, Simple.Holds]
    refine exists_congr fun c => and_congr_right fun known => ?_
    rw [PseudoClass.ofName?_eq_some_iff.1 known] at stable
    exact (appending.pseudoClass_iff here stable).symm
  | functional name arguments =>
    rw [Simple.Holds, Simple.Holds]
    refine exists_congr fun c => and_congr_right fun known => ?_
    rw [FunctionalPseudoClass.ofName?_eq_some_iff.1 known] at stable
    exact (appending.functional_iff here stable).symm
  | negation inner => exact absurd rfl (test inner)

end Appending

/-- **What is appended changes nothing for a selector that only looks ahead of it.** Wherever the
new node is put, an element of the document stays the element it was, and the selector matches it
exactly if it did before. -/
theorem accepts_appendNew_iff {s : Selector} {c : Compiled} (reachable : Reachable doc)
    (inside : parent < doc.size) (here : doc.Has e) (compiled : s.compile = .ok c)
    (stable : s.chain.IsStable) (content : Content) :
    (doc.appendNew parent content).Has e ∧
      (c.accepts (doc.appendNew parent content) e = true ↔ c.accepts doc e = true) := by
  obtain ⟨start, made, edits⟩ := reachable
  have appending : doc.Appending parent := ⟨edits.linked made.linked, inside⟩
  obtain ⟨m, compiledChain, rfl⟩ := map_eq_ok_iff.1 compiled
  refine ⟨here.appendNew, ?_⟩
  exact (appending.kinship.accepts_iff compiledChain
    (fun part member test => appending.agrees test (stable part member)) ⟨rfl, here⟩).symm

/-- A list with two items. -/
def twoItems : Document :=
  let list := (empty false).appendNew root (.element { name := "ul" })
  (list.appendNew 1 (.element { name := "li" })).appendNew 1 (.element { name := "li" })

/-- The second item matches `ul > :first-child + :not(:nth-of-type(1))`, and goes on to do so when a
third item is appended. -/
theorem accepts_second_item_of_three :
    let one : Numeric := ⟨⟨false, 1, 0⟩, some 1, false⟩
    let s := Selector.ofChain (.joined (.joined (.single [.typeName "ul"]) .child
      [.pseudoClass "first-child"]) .nextSibling
      [.negation [.functional "nth-of-type" [.number one]]]) none
    let item : Element := ⟨3, { name := "li" }⟩
    ∃ c, Reachable twoItems ∧ twoItems.Has item ∧ s.compile = .ok c ∧ s.chain.IsStable ∧
      c.accepts twoItems item = true ∧
      c.accepts (twoItems.appendNew 1 (.element { name := "li" })) item = true := by
  intro one s item
  have empty : Reachable (empty false) := ⟨_, .empty false, .refl⟩
  have list := empty.edit (@Edit.appendNew _ root (.element { name := "ul" }) (by decide))
  have first := list.edit (@Edit.appendNew _ 1 (.element { name := "li" }) (by decide))
  have reachable : Reachable twoItems :=
    first.edit (@Edit.appendNew _ 1 (.element { name := "li" }) (by decide))
  have here : twoItems.Has item := by decide
  have stable : s.chain.IsStable := by
    simp [s, Selector.ofChain, Chain.IsStable, Chain.simples, Simple.partsAll, Simple.parts,
      Simple.IsStable]
  obtain ⟨c, compiled, accepted⟩ :
      ∃ c, s.compile = .ok c ∧ c.accepts twoItems item = true :=
    ⟨_, rfl, by decide⟩
  have inside : 1 < twoItems.size := by decide
  have kept := accepts_appendNew_iff reachable inside here compiled stable
    (.element { name := "li" })
  exact ⟨c, reachable, here, compiled, stable, accepted, kept.2.2 accepted⟩

end Document

end Selectors
