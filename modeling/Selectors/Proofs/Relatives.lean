import Mathlib.Logic.Function.Iterate
import Selectors.Proofs.Edits

/-!
The relatives of an element agree with each other, however they are found. Ancestors and the
siblings in front are met along links from node to node, while siblings, places and counts come from
the children of the parent. `Document.Coherent` says how the answers belong together, and in every
document that a program can come to they do (`coherent_of_reachable`).

The middle is `Linked.exists_surroundings`: an element parts its siblings into those in front of it
and those behind it, and what the links to the neighbours meet is the front, from its end.
-/

namespace Selectors

namespace Document

variable {doc : Document} {e f : Element} {id parent : NodeId} {ids : List NodeId} {i : Nat}

/-! ## Elements that a document has -/

/-- The node of the element holds its data. -/
def Has (doc : Document) (e : Element) : Prop :=
  (doc.node? e.id).map Node.content = some (.element e.data)

instance : Decidable (doc.Has e) := inferInstanceAs (Decidable (_ = _))

theorem elementData?_eq_some_iff {data : ElementData} :
    doc.elementData? id = some data ↔ (doc.node? id).map Node.content = some (.element data) := by
  unfold elementData?
  cases doc.node? id with
  | none => simp
  | some node =>
    rcases node with ⟨content, _, _, _, _⟩
    cases content <;> simp

theorem element?_eq_some_iff : doc.element? id = some e ↔ e.id = id ∧ doc.Has e := by
  unfold element? Has
  rw [Option.map_eq_some_iff, ← elementData?_eq_some_iff]
  constructor
  · rintro ⟨data, found, rfl⟩
    exact ⟨rfl, found⟩
  · rintro ⟨rfl, found⟩
    exact ⟨e.data, found, rfl⟩

theorem Has.element? (here : doc.Has e) : doc.element? e.id = some e :=
  element?_eq_some_iff.2 ⟨rfl, here⟩

theorem mem_filterMap_element? :
    e ∈ ids.filterMap doc.element? ↔ e.id ∈ ids ∧ doc.Has e := by
  rw [List.mem_filterMap]
  constructor
  · rintro ⟨id, member, found⟩
    obtain ⟨same, here⟩ := element?_eq_some_iff.1 found
    exact ⟨same ▸ member, here⟩
  · rintro ⟨member, here⟩
    exact ⟨e.id, member, here.element?⟩

/-- An element is told by its node. -/
theorem Has.eq_of_id_eq (here : doc.Has e) (there : doc.Has f) (same : e.id = f.id) : e = f := by
  have found := here.element?
  rw [same, there.element?] at found
  exact (Option.some.inj found).symm

theorem nodup_filterMap_element? (distinct : ids.Nodup) : (ids.filterMap doc.element?).Nodup := by
  refine distinct.filterMap fun a b e inA inB => ?_
  rw [Option.mem_def, element?_eq_some_iff] at inA inB
  exact inA.1.symm.trans inB.1

theorem has_of_mem_leadingElements (member : e ∈ doc.leadingElements ids) : doc.Has e := by
  rw [leadingElements_eq] at member
  exact (mem_filterMap_element?.1 member).2

/-! ## Ancestors -/

theorem parentElement?_eq_some_iff :
    doc.parentElement? e = some f ↔ doc.parent? e.id = some f.id ∧ doc.Has f := by
  unfold parentElement?
  rw [Option.bind_eq_some_iff]
  constructor
  · rintro ⟨parent, link, found⟩
    obtain ⟨same, here⟩ := element?_eq_some_iff.1 found
    exact ⟨same ▸ link, here⟩
  · rintro ⟨link, here⟩
    exact ⟨f.id, link, here.element?⟩

section Parents

variable (acyclic : Acyclic doc.parent?)
  (parent_lt : ∀ id parent, doc.parent? id = some parent → parent < doc.size)
include acyclic parent_lt

/-- The ancestors of an element are its parent and the ancestors of that. -/
theorem ancestorElements_eq (e : Element) :
    doc.ancestorElements e =
      (doc.parentElement? e).elim [] fun p => p :: doc.ancestorElements p := by
  have step := trail_eq acyclic parent_lt e.id
  unfold ancestorElements ancestors parentElement?
  rw [step]
  cases doc.parent? e.id with
  | none => rfl
  | some parent =>
    rw [Option.elim_some, leadingElements, Option.bind_some]
    cases found : doc.element? parent with
    | none => rfl
    | some p =>
      rw [Option.elim_some, id_of_element? found]

/-- Taking the parent again and again meets the ancestors, one after the other. -/
theorem getElem?_ancestorElements (e : Element) (i : Nat) :
    (doc.ancestorElements e)[i]? = (fun f? => f?.bind doc.parentElement?)^[i + 1] (some e) := by
  induction i generalizing e with
  | zero =>
    rw [← List.head?_eq_getElem?, head?_ancestorElements]
    rfl
  | succ i ih =>
    rw [ancestorElements_eq acyclic parent_lt, Function.iterate_succ_apply, Option.bind_some]
    cases doc.parentElement? e with
    | none => exact (Function.iterate_fixed rfl _).symm
    | some p =>
      rw [Option.elim_some, List.getElem?_cons_succ]
      exact ih p

/-- What holds of an element whenever it holds of its parent holds of every element. -/
theorem induction_up {motive : Element → Prop}
    (step : ∀ e, (∀ p, doc.parentElement? e = some p → motive p) → motive e) (e : Element) :
    motive e := by
  induction ancestors : doc.ancestorElements e generalizing e with
  | nil =>
    refine step e fun p above => ?_
    rw [ancestorElements_eq acyclic parent_lt, above] at ancestors
    cases ancestors
  | cons first rest ih =>
    refine step e fun p above => ih p ?_
    rw [ancestorElements_eq acyclic parent_lt, above] at ancestors
    exact (List.cons.inj ancestors).2

end Parents

/-! ## Siblings -/

/-- Behind the first children of a node, the links to the neighbours in front meet them from the
last one on. -/
theorem Linked.trail_previous (linked : doc.Linked) {fuel : Nat} (enough : i ≤ fuel)
    (place : (doc.children parent)[i]? = some id) :
    trail doc.previous? fuel (doc.previous? id) = ((doc.children parent).take i).reverse := by
  induction i generalizing id fuel with
  | zero =>
    rw [linked.first parent id (List.head?_eq_getElem?.trans place), trail_none]
    rfl
  | succ i ih =>
    have inside := (List.getElem?_eq_some_iff.1 place).1
    obtain ⟨x, atX⟩ : ∃ x, (doc.children parent)[i]? = some x :=
      ⟨_, List.getElem?_eq_getElem (by omega)⟩
    obtain ⟨fuel, rfl⟩ := Nat.exists_eq_add_of_lt enough
    have link := (linked.neighbours parent i x id atX place).2
    rw [link, trail, ih (by omega) atX, List.take_add_one, atX, Option.toList_some,
      List.reverse_append]
    rfl

/-- The nodes in front of a child are the children before it, the nearest first. -/
theorem Linked.preceding_eq (linked : doc.Linked) (place : (doc.children parent)[i]? = some id) :
    doc.preceding id = ((doc.children parent).take i).reverse := by
  have inside := (List.getElem?_eq_some_iff.1 place).1
  have fits := length_le_of_nodup_of_lt (linked.nodup_children parent) (linked.children_lt parent)
  exact linked.trail_previous (by omega) place

theorem Linked.preceding_eq_nil (linked : doc.Linked) (alone : doc.parent? id = none) :
    doc.preceding id = [] := by
  rw [preceding, (linked.detached id alone).2, trail_none]

theorem siblings_of_parent?_eq_none (alone : doc.parent? e.id = none) : doc.siblings e = [e] := by
  unfold siblings
  rw [alone]
  rfl

theorem Linked.siblings_eq (linked : doc.Linked) (below : doc.parent? e.id = some parent) :
    doc.siblings e = (doc.children parent).filterMap doc.element? := by
  have member := (linked.mem_children_iff parent e.id).2 below
  unfold siblings
  rw [below, Option.elim_some]
  cases children : doc.children parent with
  | nil => rw [children] at member; cases member
  | cons first rest => rfl

/-- An element parts its siblings into a front and a back, and its links and its place tell the
front. -/
theorem Linked.exists_surroundings (linked : doc.Linked) (here : doc.Has e) :
    ∃ front back, doc.siblings e = front ++ e :: back ∧ (doc.siblings e).Nodup ∧
      (∀ f ∈ doc.siblings e, doc.Has f ∧ doc.siblings f = doc.siblings e) ∧
      doc.siblingIndex e = front.length ∧ doc.precedingElements e = front.reverse := by
  cases below : doc.parent? e.id with
  | none =>
    have single := siblings_of_parent?_eq_none below
    refine ⟨[], [], single, ?_, ?_, ?_, ?_⟩
    · rw [single]
      exact List.nodup_singleton e
    · intro f member
      rw [single, List.mem_singleton] at member
      rw [member]
      exact ⟨here, rfl⟩
    · rw [siblingIndex, single]
      simp
    · rw [precedingElements, linked.preceding_eq_nil below]
      rfl
  | some parent =>
    have listed := linked.siblings_eq below
    have distinct := linked.nodup_children parent
    have nodup : (doc.siblings e).Nodup := listed ▸ nodup_filterMap_element? distinct
    obtain ⟨before, behind, parts⟩ :=
      List.append_of_mem ((linked.mem_children_iff parent e.id).2 below)
    have place : (doc.children parent)[before.length]? = some e.id := by
      rw [parts, List.getElem?_append_right (Nat.le_refl _), Nat.sub_self]
      rfl
    have split : doc.siblings e =
        before.filterMap doc.element? ++ e :: behind.filterMap doc.element? := by
      rw [listed, parts, List.filterMap_append, List.filterMap_cons_some here.element?]
    have apart : ∀ f ∈ before.filterMap doc.element?, (f.id == e.id) = false := by
      intro f member
      have inFront := (mem_filterMap_element?.1 member).1
      rw [parts] at distinct
      rw [beq_eq_false_iff_ne]
      exact (List.nodup_append.1 distinct).2.2 f.id inFront e.id (List.mem_cons_self ..)
    refine ⟨_, _, split, nodup, ?_, ?_, ?_⟩
    · intro f member
      rw [listed] at member
      obtain ⟨inChildren, there⟩ := mem_filterMap_element?.1 member
      have sameParent := (linked.mem_children_iff parent f.id).1 inChildren
      exact ⟨there, (linked.siblings_eq sameParent).trans listed.symm⟩
    · rw [siblingIndex, split, findIdx?_append_cons apart (beq_self_eq_true e.id), Option.getD_some]
    · rw [precedingElements, linked.preceding_eq place, parts, List.take_left,
        List.filterMap_reverse]

/-- Where an element stands, seen from the list of its siblings. -/
theorem Linked.exists_place (linked : doc.Linked) (here : doc.Has e) :
    ∃ i < (doc.siblings e).length, (∀ j, (doc.siblings e)[j]? = some e ↔ j = i) ∧
      doc.siblingIndex e = i ∧ doc.precedingElements e = ((doc.siblings e).take i).reverse := by
  obtain ⟨front, back, split, nodup, -, index, preceding⟩ := linked.exists_surroundings here
  have atIndex : (doc.siblings e)[front.length]? = some e := by
    rw [split, List.getElem?_append_right (Nat.le_refl _), Nat.sub_self]
    rfl
  refine ⟨front.length, (List.getElem?_eq_some_iff.1 atIndex).1, fun j => ?_, index, ?_⟩
  · constructor
    · intro found
      have inside := (List.getElem?_eq_some_iff.1 found).1
      exact (List.getElem?_inj inside nodup).1 (found.trans atIndex.symm)
    · rintro rfl
      exact atIndex
  · rw [preceding, split, List.take_left]

/-! ## How the answers belong together -/

/-- An answer to a question for relatives of an element. -/
inductive Relative (doc : Document) (e : Element) : Element → Prop
  | parent {f : Element} : doc.parentElement? e = some f → Relative doc e f
  | ancestor {f : Element} : f ∈ doc.ancestorElements e → Relative doc e f
  | previous {f : Element} : doc.previousElement? e = some f → Relative doc e f
  | preceding {f : Element} : f ∈ doc.precedingElements e → Relative doc e f
  | sibling {f : Element} : f ∈ doc.siblings e → Relative doc e f

/-- The relatives of an element agree with each other. -/
structure Coherent (doc : Document) (e : Element) : Prop where
  /-- The ancestors are the parent, its parent and so on to the last one. -/
  ancestors : ∀ i, (doc.ancestorElements e)[i]? =
    (fun f? => f?.bind doc.parentElement?)^[i + 1] (some e)
  /-- The element stands among its siblings once, at its index. -/
  place : ∀ i, (doc.siblings e)[i]? = some e ↔ i = doc.siblingIndex e
  count : doc.siblingCount e = (doc.siblings e).length
  index_lt : doc.siblingIndex e < doc.siblingCount e
  preceding : doc.precedingElements e = ((doc.siblings e).take (doc.siblingIndex e)).reverse
  previous : doc.previousElement? e = (doc.precedingElements e).head?
  shared : ∀ f ∈ doc.siblings e, doc.siblings f = doc.siblings e
  /-- Nothing but elements is ever answered. -/
  elements : ∀ f, Relative doc e f →
    ∃ node, doc.node? f.id = some node ∧ node.content = .element f.data

theorem Linked.has_of_relative (linked : doc.Linked) (here : doc.Has e)
    (relative : Relative doc e f) : doc.Has f := by
  cases relative with
  | parent found => exact (parentElement?_eq_some_iff.1 found).2
  | ancestor member => exact has_of_mem_leadingElements member
  | previous found => exact (mem_filterMap_element?.1 (List.mem_of_head? found)).2
  | preceding member => exact (mem_filterMap_element?.1 member).2
  | sibling member =>
    obtain ⟨_, _, _, _, shared, _, _⟩ := linked.exists_surroundings here
    exact (shared f member).1

/-- **The relatives of every element agree with each other**, wherever it stands and whatever a
program did to the document before. -/
theorem coherent_of_reachable (reachable : Reachable doc) (here : doc.Has e) : doc.Coherent e := by
  obtain ⟨start, made, edits⟩ := reachable
  have linked := edits.linked made.linked
  obtain ⟨front, back, split, nodup, shared, index, preceding⟩ := linked.exists_surroundings here
  have atIndex : (doc.siblings e)[doc.siblingIndex e]? = some e := by
    rw [index, split, List.getElem?_append_right (Nat.le_refl _), Nat.sub_self]
    rfl
  constructor
  case ancestors => exact getElem?_ancestorElements linked.acyclic linked.parent_lt e
  case place =>
    intro i
    constructor
    · intro found
      have inside := (List.getElem?_eq_some_iff.1 found).1
      exact (List.getElem?_inj inside nodup).1 (found.trans atIndex.symm)
    · rintro rfl
      exact atIndex
  case count => rfl
  case index_lt => exact (List.getElem?_eq_some_iff.1 atIndex).1
  case preceding => rw [preceding, index, split, List.take_left]
  case previous => rfl
  case shared => exact fun f member => (shared f member).2
  case elements =>
    intro f relative
    obtain ⟨node, found, content⟩ :=
      Option.map_eq_some_iff.1 (linked.has_of_relative here relative)
    exact ⟨node, found, content⟩

/-- Two elements below a text, a comment between them, and one element that stands nowhere. -/
def mixed : Document :=
  let below := (empty false).appendNew root (.text "t")
  let first := (below.appendNew 1 (.element { name := "a" })).appendNew 1 (.comment "c")
  (first.appendNew 1 (.element { name := "b" })).alloc (.element { name := "loose" })

/-- The links lead from `b` over the comment to `a`, and its index counts `a` alone. -/
theorem coherent_below_text :
    Reachable mixed ∧ mixed.Has ⟨4, { name := "b" }⟩ ∧ mixed.Coherent ⟨4, { name := "b" }⟩ := by
  have empty : Reachable (empty false) := ⟨_, .empty false, .refl⟩
  have text := empty.edit (@Edit.appendNew _ root (.text "t") (by decide))
  have a := text.edit (@Edit.appendNew _ 1 (.element { name := "a" }) (by decide))
  have comment := a.edit (@Edit.appendNew _ 1 (.comment "c") (by decide))
  have b := comment.edit (@Edit.appendNew _ 1 (.element { name := "b" }) (by decide))
  have reachable : Reachable mixed := b.edit (.alloc (.element { name := "loose" }))
  exact ⟨reachable, by decide, coherent_of_reachable reachable (by decide)⟩

end Document

end Selectors
