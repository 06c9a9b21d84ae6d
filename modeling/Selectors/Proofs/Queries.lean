import Selectors.Proofs.Hints
import Selectors.Proofs.Relatives
import Selectors.Proofs.TreeOrder
import Selectors.Query

/-!
Queries find what a search of the whole document would find. The nodes in and below a node are a
stretch of every listing that the node is in (`Linked.filter_descendants`), so the subtree that a
query goes through holds those elements of the document whose ancestors lead to the root of the
query. The root says which elements may be found, and what an element has to match is the same
everywhere (`queryAll_eq_filter_elements`).
-/

namespace Selectors

namespace Document

variable {doc : Document} {e s : Element} {id top x : NodeId} {ids : List NodeId}
variable {selectors : List Compiled}

/-! ## The nodes below a node -/

/-- A list of the strict descendants of a node: all that its children lead down to, once each, in
recursive pre-order. A walk that keeps a stack visits them in this order and ends. -/
structure ListsBelow (doc : Document) (id : NodeId) (visited : List NodeId) : Prop where
  walk : doc.Walk (doc.children id).reverse visited
  listing : doc.Listing (doc.children id) visited
  nodup : visited.Nodup
  mem_iff : ∀ x, x ∈ visited ↔ doc.Contains id x

theorem Linked.listsBelow_descendants (linked : doc.Linked) (id : NodeId) :
    doc.ListsBelow id (doc.descendants id) where
  walk := walk_descendants linked.closed linked.loopless id
  listing := listing_descendants linked.closed linked.loopless id
  nodup := linked.nodup_descendants id
  mem_iff _ := mem_descendants_iff linked.closed linked.loopless

/-- Going down from a node and going up from another one meet each other. -/
theorem Linked.mem_descendants_iff_mem_ancestors (linked : doc.Linked) :
    x ∈ doc.descendants id ↔ id ∈ doc.ancestors x := by
  rw [mem_descendants_iff linked.closed linked.loopless, linked.contains_iff_leads,
    linked.mem_ancestors_iff]

/-- The nodes in and below a node stand side by side in every listing that the node is in. -/
theorem Linked.filter_descendants (linked : doc.Linked) (member : x ∈ doc.descendants top) :
    ((doc.descendants top).filter fun y => decide (y = x ∨ x ∈ doc.ancestors y)) =
      x :: doc.descendants x := by
  obtain ⟨front, below, back, parts, listing⟩ :=
    (listing_descendants linked.closed linked.loopless top).split member
  have same : below = doc.descendants x :=
    listing.unique (listing_descendants linked.closed linked.loopless x)
  have distinct := linked.nodup_descendants top
  rw [same] at parts
  rw [parts] at distinct ⊢
  obtain ⟨-, stretch, apartFront⟩ := List.nodup_append.1 distinct
  rw [← List.cons_append] at stretch apartFront
  obtain ⟨-, -, apartBack⟩ := List.nodup_append.1 stretch
  have chosen (y : NodeId) :
      decide (y = x ∨ x ∈ doc.ancestors y) = true ↔ y ∈ x :: doc.descendants x := by
    rw [decide_eq_true_eq, List.mem_cons, linked.mem_descendants_iff_mem_ancestors]
  have front_nil : (front.filter fun y => decide (y = x ∨ x ∈ doc.ancestors y)) = [] := by
    refine List.filter_eq_nil_iff.2 fun y inFront isChosen => ?_
    exact apartFront y inFront y (List.mem_append_left _ ((chosen y).1 isChosen)) rfl
  have back_nil : (back.filter fun y => decide (y = x ∨ x ∈ doc.ancestors y)) = [] := by
    refine List.filter_eq_nil_iff.2 fun y inBack isChosen => ?_
    exact apartBack y ((chosen y).1 isChosen) y inBack rfl
  have kept : ((x :: doc.descendants x).filter fun y => decide (y = x ∨ x ∈ doc.ancestors y)) =
      x :: doc.descendants x := List.filter_eq_self.2 fun y member => (chosen y).2 member
  rw [← List.cons_append, List.filter_append, List.filter_append, front_nil, back_nil, kept,
    List.append_nil, List.nil_append]

/-! ## The elements of a subtree -/

theorem filter_filterMap_element? (test : NodeId → Bool) :
    (ids.filterMap doc.element?).filter (fun e => test e.id) =
      (ids.filter test).filterMap doc.element? := by
  rw [List.filter_filterMap, List.filterMap_filter]
  congr 1
  funext id
  cases found : doc.element? id with
  | none => simp
  | some e => simp [Option.filter, id_of_element? found]

theorem mem_elements_iff : e ∈ doc.elements ↔ e.id ∈ doc.descendants root ∧ doc.Has e :=
  mem_filterMap_element?

theorem subtree_eq (here : doc.Has s) :
    doc.subtree s = (s.id :: doc.descendants s.id).filterMap doc.element? := by
  rw [List.filterMap_cons_some here.element?]
  rfl

/-- The subtree of an element is the part of the document that has it as itself or as an ancestor,
in the order of the document. -/
theorem Linked.subtree_eq_filter_elements (linked : doc.Linked) (inside : s ∈ doc.elements) :
    doc.subtree s =
      doc.elements.filter fun e => decide (e.id = s.id ∨ s.id ∈ doc.ancestors e.id) := by
  obtain ⟨member, here⟩ := mem_elements_iff.1 inside
  rw [subtree_eq here, ← linked.filter_descendants member]
  exact (filter_filterMap_element? _).symm

/-! ## Queries -/

theorem matchesAny_iff : doc.matchesAny selectors e = true ↔
    ∃ c ∈ selectors, c.pseudoElement? = none ∧ c.accepts doc e = true := by
  unfold matchesAny
  rw [List.any_eq_true]
  refine exists_congr fun c => and_congr_right fun _ => ?_
  rw [Bool.and_eq_true, Bool.and_eq_true, Option.isNone_iff_eq_none, and_assoc]
  refine and_congr_right fun _ => and_iff_right_of_imp fun accepts => ?_
  cases never : c.neverMatches with
  | false => rfl
  | true =>
    rw [Compiled.not_accepts_of_neverMatches never] at accepts
    cases accepts

/-- **Traversal and queries are exact** in every document that a program can come to. The nodes
below a node are listed in pre-order. What a query finds are those elements of the document, in its
order, that are the root of the query or have it among their ancestors, and that some selector of a
whole element accepts. -/
theorem queryAll_eq_filter_elements (reachable : Reachable doc) :
    (∀ id, doc.ListsBelow id (doc.descendants id)) ∧
    ∀ s ∈ doc.elements, ∀ selectors : List Compiled,
      doc.queryAll s selectors = (doc.elements.filter fun e => decide
        ((e = s ∨ s.id ∈ doc.ancestors e.id) ∧
          ∃ c ∈ selectors, c.pseudoElement? = none ∧ c.accepts doc e = true)) ∧
      doc.query? s selectors = (doc.queryAll s selectors).head? := by
  obtain ⟨start, made, edits⟩ := reachable
  have linked := edits.linked made.linked
  refine ⟨linked.listsBelow_descendants, fun s inside selectors => ⟨?_, rfl⟩⟩
  rw [queryAll, linked.subtree_eq_filter_elements inside, List.filter_filter]
  refine List.filter_congr fun e member => ?_
  have same : e.id = s.id ↔ e = s :=
    ⟨(mem_elements_iff.1 member).2.eq_of_id_eq (mem_elements_iff.1 inside).2,
      fun same => same ▸ rfl⟩
  rw [Bool.eq_iff_iff, Bool.and_eq_true, matchesAny_iff, decide_eq_true_eq, decide_eq_true_eq, same,
    and_comm]

/-- A list of two items, the first one with a text and an element in it. -/
def items : Document :=
  let list := (empty false).appendNew root (.element { name := "ul" })
  let first := list.appendNew 1 (.element { name := "li" })
  let filled := (first.appendNew 2 (.text "t")).appendNew 2 (.element { name := "b" })
  filled.appendNew 1 (.element { name := "li" })

/-- Inside the first item, the selector `ul *` finds the item itself: what it asks for stands beyond
the root of the query. The selector `b::before` finds nothing. -/
theorem queryAll_first_item :
    let inList : Compiled := ⟨.test (.ancestor (.typeName "ul")), .zero, none, {}⟩
    let part : Compiled := ⟨.test (.typeName "b"), .zero, some "before", {}⟩
    let item : Element := ⟨2, { name := "li" }⟩
    Reachable items ∧ item ∈ items.elements ∧
      items.queryAll item [part, inList] = [item, ⟨4, { name := "b" }⟩] ∧
      items.queryAll item [part] = [] := by
  intro inList part item
  have empty : Reachable (empty false) := ⟨_, .empty false, .refl⟩
  have list := empty.edit (@Edit.appendNew _ root (.element { name := "ul" }) (by decide))
  have first := list.edit (@Edit.appendNew _ 1 (.element { name := "li" }) (by decide))
  have text := first.edit (@Edit.appendNew _ 2 (.text "t") (by decide))
  have filled := text.edit (@Edit.appendNew _ 2 (.element { name := "b" }) (by decide))
  have reachable : Reachable items :=
    filled.edit (@Edit.appendNew _ 1 (.element { name := "li" }) (by decide))
  have inside : item ∈ items.elements := by decide
  have found := (queryAll_eq_filter_elements reachable).2 item inside
  refine ⟨reachable, inside, (found [part, inList]).1.trans ?_, (found [part]).1.trans ?_⟩
  · decide
  · decide

end Document

end Selectors
