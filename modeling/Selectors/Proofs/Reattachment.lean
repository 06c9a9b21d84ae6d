import Selectors.Proofs.Edits

/-!
What becomes of a node that is appended although it stands somewhere already. It would be moved
(`Document.Moved`) if its old place were cleared, but nothing is taken away: the old parent goes on
listing the node, and the links to its old neighbours stay unless new ones are written over them.
`reattached_append` says what every link is afterwards. So no such append leaves the links in
agreement, wherever the node stood and wherever it goes.
-/

namespace Selectors

namespace Document

variable {doc doc' : Document} {old parent child id : NodeId}

/-! ## The ends of a list of children -/

/-- Among linked nodes the last child is the one without a neighbour behind. -/
theorem Linked.next?_eq_none_iff (linked : doc.Linked) (below : doc.parent? id = some parent) :
    doc.next? id = none ↔ (doc.children parent).getLast? = some id := by
  refine ⟨fun alone => ?_, linked.last parent id⟩
  obtain ⟨front, back, parts⟩ := List.append_of_mem ((linked.mem_children_iff parent id).2 below)
  cases back with
  | nil => rw [parts, List.getLast?_concat]
  | cons behind back =>
    have atId : (doc.children parent)[front.length]? = some id := by simp [parts]
    have atNext : (doc.children parent)[front.length + 1]? = some behind := by simp [parts]
    have link := (linked.neighbours parent front.length id behind atId atNext).1
    rw [alone] at link
    cases link

/-- Among linked nodes the first child is the one without a neighbour in front. -/
theorem Linked.previous?_eq_none_iff (linked : doc.Linked) (below : doc.parent? id = some parent) :
    doc.previous? id = none ↔ (doc.children parent).head? = some id := by
  refine ⟨fun alone => ?_, linked.first parent id⟩
  obtain ⟨front, back, parts⟩ := List.append_of_mem ((linked.mem_children_iff parent id).2 below)
  rcases List.eq_nil_or_concat front with rfl | ⟨front, before, rfl⟩
  · rw [parts]
    rfl
  · have atBefore : (doc.children parent)[front.length]? = some before := by simp [parts]
    have atId : (doc.children parent)[front.length + 1]? = some id := by simp [parts]
    have link := (linked.neighbours parent front.length before id atBefore atId).2
    rw [alone] at link
    cases link

/-! ## Appending a node that stands somewhere -/

/-- A node with a parent can be put below another node without making a loop: that one exists, it is
neither the node nor below it, and it does not list the node yet. -/
structure Movable (doc : Document) (old parent child : NodeId) : Prop where
  parent_lt : parent < doc.size
  attached : doc.parent? child = some old
  apart : child ≠ parent
  clear : child ∉ doc.ancestors parent
  new : child ∉ doc.children parent

/-- A node was moved: the links agree, and it is the last child of its new parent and no child of
any other node. -/
structure Moved (doc doc' : Document) (parent child : NodeId) : Prop where
  linked : doc'.Linked
  last : (doc'.children parent).getLast? = some child
  single : ∀ p, child ∈ doc'.children p → p = parent
  previous : doc'.previous? child = (doc.children parent).getLast?
  next : doc'.next? child = none

/-- A node got a new place and kept the old one. -/
structure Reattached (doc doc' : Document) (old parent child : NodeId) : Prop where
  parent_eq : ∀ id, doc'.parent? id = if id = child then some parent else doc.parent? id
  children_eq : ∀ id, doc'.children id =
    if id = parent then doc.children id ++ [child] else doc.children id
  next_eq : ∀ id, doc'.next? id =
    if (doc.children parent).getLast? = some id then some child else doc.next? id
  previous_eq : ∀ id, doc'.previous? id =
    if id = child then (doc.children parent).getLast?.or (doc.previous? child) else doc.previous? id
  /-- Two nodes list it, one of which is not its parent. -/
  listed : ∀ p, child ∈ doc'.children p ↔ p = parent ∨ p = old
  /-- The neighbour behind is the one of the old place, and is missing only if there was none. -/
  next_eq_none_iff : doc'.next? child = none ↔ (doc.children old).getLast? = some child
  /-- The neighbour in front is the one of the old place where the new parent had no children. -/
  previous_eq_iff : doc'.previous? child = (doc.children parent).getLast? ↔
    doc.children parent ≠ [] ∨ (doc.children old).head? = some child
  acyclic : Acyclic doc'.parent?
  notLinked : ¬ doc'.Linked

theorem Movable.child_lt (movable : doc.Movable old parent child) : child < doc.size := by
  obtain ⟨node, stored, -⟩ := Option.bind_eq_some_iff.1 movable.attached
  exact (Array.getElem?_eq_some_iff.1 stored).1

theorem Movable.previous?_append (movable : doc.Movable old parent child) (id : NodeId) :
    (doc.append parent child).previous? id =
      if id = child then (doc.children parent).getLast?.or (doc.previous? child)
      else doc.previous? id := by
  obtain ⟨node, stored⟩ := exists_node_of_lt movable.child_lt
  rw [Document.previous?_append]
  split
  · rename_i same
    rw [same, stored, Option.bind_some]
  · rfl

section Moving

variable (linked : doc.Linked) (movable : doc.Movable old parent child)
include linked movable

theorem Movable.old_ne : old ≠ parent :=
  fun same => movable.new ((linked.mem_children_iff parent child).2 (same ▸ movable.attached))

theorem Movable.mem_children_append_iff (p : NodeId) :
    child ∈ (doc.append parent child).children p ↔ p = parent ∨ p = old := by
  have listedBefore : child ∈ doc.children p ↔ p = old := by
    rw [linked.mem_children_iff, movable.attached, Option.some_inj, eq_comm]
  rw [children_append movable.parent_lt]
  split
  · rename_i here
    exact iff_of_true (List.mem_append_right _ (List.mem_singleton_self _)) (Or.inl here)
  · rename_i elsewhere
    rw [listedBefore, or_iff_right elsewhere]

theorem Movable.next?_append_child : (doc.append parent child).next? child = doc.next? child := by
  have notLast : (doc.children parent).getLast? ≠ some child :=
    fun last => movable.new (List.mem_of_getLast? last)
  rw [next?_append fun _ => linked.lt_of_getLast?, if_neg notLast]

/-- The old parent lists a node whose parent is another one. -/
theorem Movable.not_linked_append : ¬ (doc.append parent child).Linked := by
  intro linkedAfter
  have listed := (movable.mem_children_append_iff linked old).2 (Or.inr rfl)
  have link := (linkedAfter.mem_children_iff old child).1 listed
  rw [parent?_append movable.child_lt, if_pos rfl] at link
  exact movable.old_ne linked (Option.some.inj link).symm

/-- **Appending a node that has a parent gives it a second place.** It becomes the last child of the
new parent, and the old parent goes on listing it between its old neighbours. -/
theorem reattached_append : doc.Reattached (doc.append parent child) old parent child := by
  have next := movable.next?_append_child linked
  have previous := movable.previous?_append
  constructor
  case parent_eq => exact parent?_append movable.child_lt
  case children_eq => exact children_append movable.parent_lt
  case next_eq => exact next?_append fun _ => linked.lt_of_getLast?
  case previous_eq => exact previous
  case listed => exact movable.mem_children_append_iff linked
  case next_eq_none_iff => rw [next, linked.next?_eq_none_iff movable.attached]
  case previous_eq_iff =>
    rw [previous, if_pos rfl, ← linked.previous?_eq_none_iff movable.attached]
    cases last : (doc.children parent).getLast? with
    | none =>
      have empty := List.getLast?_eq_none_iff.1 last
      rw [Option.none_or, or_iff_right (not_not_intro empty)]
    | some before =>
      have full : doc.children parent ≠ [] := List.ne_nil_of_mem (List.mem_of_getLast? last)
      exact iff_of_true rfl (Or.inl full)
  case acyclic => exact linked.acyclic_append movable.child_lt movable.apart movable.clear
  case notLinked => exact movable.not_linked_append linked

end Moving

/-- An element with three children. -/
def threeChildren : Document :=
  let list := (empty false).appendNew root (.element { name := "r" })
  let first := list.appendNew 1 (.element { name := "a" })
  (first.appendNew 1 (.element { name := "b" })).appendNew 1 (.element { name := "c" })

theorem linked_threeChildren : threeChildren.Linked := by
  have list := (@Edit.appendNew _ root (.element { name := "r" }) (by decide)).linked
    (linked_empty false)
  have first := (@Edit.appendNew _ 1 (.element { name := "a" }) (by decide)).linked list
  have second := (@Edit.appendNew _ 1 (.element { name := "b" }) (by decide)).linked first
  exact (@Edit.appendNew _ 1 (.element { name := "c" }) (by decide)).linked second

/-- The middle child is put below the first one. Its links to both old neighbours stay. -/
theorem reattached_middle_child :
    threeChildren.Linked ∧ threeChildren.Movable 1 2 3 ∧
      threeChildren.Reattached (threeChildren.append 2 3) 1 2 3 := by
  have movable : threeChildren.Movable 1 2 3 :=
    ⟨by decide, by decide, by decide, by decide, by decide⟩
  exact ⟨linked_threeChildren, movable, reattached_append linked_threeChildren movable⟩

/-- The middle child was not moved: the third child is still its neighbour. -/
theorem not_moved_middle_child :
    threeChildren.Linked ∧ threeChildren.Movable 1 2 3 ∧
      ¬ threeChildren.Moved (threeChildren.append 2 3) 2 3 := by
  have movable : threeChildren.Movable 1 2 3 :=
    ⟨by decide, by decide, by decide, by decide, by decide⟩
  refine ⟨linked_threeChildren, movable, fun moved => ?_⟩
  have stale : (threeChildren.append 2 3).next? 3 = some 4 := by decide
  exact absurd (stale.symm.trans moved.next) (Option.some_ne_none 4)

end Document

end Selectors
