import Selectors.Document.Load
import Selectors.Proofs.Basic
import Selectors.Proofs.Walks

/-!
The links of a document agree with each other. Where a node stands is stored five times over: in
its own link to the parent, in the children of the parent, and in the links between neighbours.
`Document.Linked` says how the five belong together.

A program makes a document from nothing or by loading a text, and changes it by edits. No edit
breaks the links (`Edit.linked`), so they agree in every document that is ever reached
(`Reachable.linked`). Loading is a run of edits itself.
-/

namespace Selectors

namespace Document

variable {doc doc' : Document} {content : Content} {parent child id : NodeId}

/-! ## What an append does to the links -/

theorem exists_node_of_lt (inside : id < doc.size) : ∃ node, doc.node? id = some node :=
  ⟨_, Array.getElem?_eq_getElem inside⟩

theorem parent?_append (inside : child < doc.size) (id : NodeId) :
    (doc.append parent child).parent? id =
      if id = child then some parent else doc.parent? id := by
  unfold parent?
  rw [node?_append, Option.bind_map]
  by_cases same : id = child
  · obtain ⟨node, stored⟩ := exists_node_of_lt inside
    rw [same, stored, if_pos rfl, Option.bind_some, Function.comp_apply, if_pos rfl]
  · simp only [same, if_false]
    rfl

theorem children_append (inside : parent < doc.size) (id : NodeId) :
    (doc.append parent child).children id =
      if id = parent then doc.children id ++ [child] else doc.children id := by
  unfold children
  rw [node?_append]
  by_cases same : id = parent
  · obtain ⟨node, stored⟩ := exists_node_of_lt inside
    rw [same, stored, if_pos rfl, Option.map_some, Option.elim_some, if_pos rfl, Option.elim_some]
  · simp only [same, if_false]
    cases doc.node? id <;> rfl

theorem next?_append (inside : ∀ last, (doc.children parent).getLast? = some last → last < doc.size)
    (id : NodeId) :
    (doc.append parent child).next? id =
      if (doc.children parent).getLast? = some id then some child else doc.next? id := by
  unfold next?
  rw [node?_append, Option.bind_map]
  by_cases last : (doc.children parent).getLast? = some id
  · obtain ⟨node, stored⟩ := exists_node_of_lt (inside id last)
    rw [stored, if_pos last, Option.bind_some, Function.comp_apply, if_pos last]
  · simp only [last, if_false]
    rfl

theorem previous?_append (id : NodeId) :
    (doc.append parent child).previous? id =
      if id = child then ((doc.node? id).bind fun _ => (doc.children parent).getLast?).or
        (doc.previous? id)
      else doc.previous? id := by
  unfold previous?
  rw [node?_append, Option.bind_map]
  by_cases same : id = child
  · simp only [same, if_true]
    cases doc.node? child <;> rfl
  · simp only [same, if_false]
    rfl

/-! ## Documents with the same links -/

/-- The links of a node, apart from what the node is. A node that does not exist has none. -/
def linksAt (doc : Document) (id : NodeId) : Node :=
  (doc.node? id).elim { content := .document } fun node => { node with content := .document }

theorem parent?_linksAt : (doc.linksAt id).parent? = doc.parent? id := by
  unfold linksAt parent?
  cases doc.node? id <;> rfl

theorem children_linksAt : (doc.linksAt id).children = doc.children id := by
  unfold linksAt children
  cases doc.node? id <;> rfl

theorem next?_linksAt : (doc.linksAt id).next? = doc.next? id := by
  unfold linksAt next?
  cases doc.node? id <;> rfl

theorem previous?_linksAt : (doc.linksAt id).previous? = doc.previous? id := by
  unfold linksAt previous?
  cases doc.node? id <;> rfl

/-- Two documents link their nodes in the same way. The second one may have nodes besides. -/
structure SameLinks (doc doc' : Document) : Prop where
  size_le : doc.size ≤ doc'.size
  linksAt : ∀ id, doc'.linksAt id = doc.linksAt id

theorem sameLinks_of_nodes_eq (same : doc'.nodes = doc.nodes) : SameLinks doc doc' where
  size_le := Nat.le_of_eq (congrArg Array.size same).symm
  linksAt id := by rw [linksAt, node?, same]; rfl

theorem sameLinks_alloc (doc : Document) (content : Content) :
    SameLinks doc (doc.alloc content) where
  size_le := by simp
  linksAt id := by
    unfold linksAt
    rw [node?_alloc]
    split
    · rename_i new
      have unknown : doc.node? doc.size = none := Array.getElem?_eq_none (Nat.le_refl _)
      rw [new, unknown]
      rfl
    · rfl

theorem sameLinks_changeContent (doc : Document) (target : NodeId) (change : Content → Content) :
    SameLinks doc (doc.changeContent target change) where
  size_le := Nat.le_of_eq (size_update ..).symm
  linksAt id := by
    unfold linksAt changeContent
    rw [node?_forgetPragma, node?_update]
    cases doc.node? id with
    | none => rfl
    | some node =>
      simp only [Option.map_some, Option.elim_some]
      split <;> rfl

/-! ## Linked documents -/

/-- The links of a document agree with each other. -/
structure Linked (doc : Document) : Prop where
  children_lt : ∀ parent, ∀ child ∈ doc.children parent, child < doc.size
  parent_lt : ∀ id parent, doc.parent? id = some parent → parent < doc.size
  next_lt : ∀ id next, doc.next? id = some next → next < doc.size
  previous_lt : ∀ id previous, doc.previous? id = some previous → previous < doc.size
  mem_children_iff : ∀ parent child, child ∈ doc.children parent ↔ doc.parent? child = some parent
  nodup_children : ∀ parent, (doc.children parent).Nodup
  /-- Adjacent children point at each other. -/
  neighbours : ∀ parent i x y, (doc.children parent)[i]? = some x →
    (doc.children parent)[i + 1]? = some y → doc.next? x = some y ∧ doc.previous? y = some x
  first : ∀ parent child, (doc.children parent).head? = some child → doc.previous? child = none
  last : ∀ parent child, (doc.children parent).getLast? = some child → doc.next? child = none
  detached : ∀ id, doc.parent? id = none → doc.next? id = none ∧ doc.previous? id = none
  acyclic : Acyclic doc.parent?

theorem SameLinks.parent? (same : SameLinks doc doc') (id : NodeId) :
    doc'.parent? id = doc.parent? id := by
  rw [← parent?_linksAt, same.linksAt, parent?_linksAt]

theorem SameLinks.children (same : SameLinks doc doc') (id : NodeId) :
    doc'.children id = doc.children id := by
  rw [← children_linksAt, same.linksAt, children_linksAt]

theorem SameLinks.linked (same : SameLinks doc doc') (linked : doc.Linked) : doc'.Linked := by
  have parents := same.parent?
  have childrens (id : NodeId) : doc'.children id = doc.children id := by
    rw [← children_linksAt, same.linksAt, children_linksAt]
  have nexts (id : NodeId) : doc'.next? id = doc.next? id := by
    rw [← next?_linksAt, same.linksAt, next?_linksAt]
  have previouses (id : NodeId) : doc'.previous? id = doc.previous? id := by
    rw [← previous?_linksAt, same.linksAt, previous?_linksAt]
  have sameParent : doc'.parent? = doc.parent? := funext parents
  constructor
  case children_lt =>
    intro parent child member
    rw [childrens] at member
    exact Nat.lt_of_lt_of_le (linked.children_lt parent child member) same.size_le
  case parent_lt =>
    intro id parent link
    rw [parents] at link
    exact Nat.lt_of_lt_of_le (linked.parent_lt id parent link) same.size_le
  case next_lt =>
    intro id next link
    rw [nexts] at link
    exact Nat.lt_of_lt_of_le (linked.next_lt id next link) same.size_le
  case previous_lt =>
    intro id previous link
    rw [previouses] at link
    exact Nat.lt_of_lt_of_le (linked.previous_lt id previous link) same.size_le
  case acyclic => rw [sameParent]; exact linked.acyclic
  all_goals simp only [parents, childrens, nexts, previouses]
  case mem_children_iff => exact linked.mem_children_iff
  case nodup_children => exact linked.nodup_children
  case neighbours => exact linked.neighbours
  case first => exact linked.first
  case last => exact linked.last
  case detached => exact linked.detached

/-- Among linked nodes the ancestors are all that the links to the parents lead to. -/
theorem Linked.mem_ancestors_iff (linked : doc.Linked) {ancestor : NodeId} :
    ancestor ∈ doc.ancestors id ↔ Leads doc.parent? id ancestor :=
  mem_trail_iff linked.acyclic linked.parent_lt

theorem Linked.lt_of_getLast? (linked : doc.Linked)
    (isLast : (doc.children parent).getLast? = some id) : id < doc.size :=
  linked.children_lt parent id (List.mem_of_getLast? isLast)

/-- A child of one node is not the last child of another one. -/
theorem Linked.getLast?_ne (linked : doc.Linked) {other : NodeId} (member : id ∈ doc.children other)
    (differ : other ≠ parent) : (doc.children parent).getLast? ≠ some id := by
  intro isLast
  have here := (linked.mem_children_iff other id).1 member
  have there := (linked.mem_children_iff parent id).1 (List.mem_of_getLast? isLast)
  exact differ (Option.some.inj (here.symm.trans there))

/-- A node that is put below another one, neither itself nor one below it, comes under no node that
is below it. -/
theorem Linked.acyclic_append (linked : doc.Linked) (inside : child < doc.size)
    (apart : child ≠ parent) (clear : child ∉ doc.ancestors parent) :
    Acyclic (doc.append parent child).parent? := by
  refine linked.acyclic.insert (a := child) (b := parent) ?_ apart.symm ?_
  · intro x y step
    rw [parent?_append inside] at step
    split at step
    · rename_i new
      exact Or.inr ⟨new, (Option.some.inj step).symm⟩
    · exact Or.inl step
  · exact fun leads => clear (linked.mem_ancestors_iff.2 leads)

/-! ## Appending a node that stands nowhere -/

/-- A node can be put below another one: both exist, it has no parent yet, and it is neither the
other one nor above it. -/
structure Attachable (doc : Document) (parent child : NodeId) : Prop where
  parent_lt : parent < doc.size
  child_lt : child < doc.size
  single : doc.parent? child = none
  apart : child ≠ parent
  clear : child ∉ doc.ancestors parent

section Attaching

variable (linked : doc.Linked) (ready : doc.Attachable parent child)
include linked ready

theorem Linked.notMem_children (p : NodeId) : child ∉ doc.children p := by
  intro member
  rw [linked.mem_children_iff, ready.single] at member
  cases member

theorem Linked.ne_of_mem_children {p : NodeId} (member : id ∈ doc.children p) : id ≠ child :=
  fun same => linked.notMem_children ready p (same ▸ member)

theorem Linked.previous?_attach (id : NodeId) : (doc.append parent child).previous? id =
    if id = child then (doc.children parent).getLast? else doc.previous? id := by
  obtain ⟨node, stored⟩ := exists_node_of_lt ready.child_lt
  rw [previous?_append]
  split
  · rename_i same
    rw [same, stored, Option.bind_some, (linked.detached child ready.single).2, Option.or_none]
  · rfl

theorem Linked.mem_children_attach_iff (p c : NodeId) :
    c ∈ (doc.append parent child).children p ↔ (doc.append parent child).parent? c = some p := by
  rw [children_append ready.parent_lt, parent?_append ready.child_lt]
  by_cases new : c = child
  · rw [if_pos new, new]
    by_cases here : p = parent
    · rw [if_pos here, here]
      simp
    · rw [if_neg here]
      exact iff_of_false (linked.notMem_children ready p)
        fun same => here (Option.some.inj same).symm
  · rw [if_neg new, ← linked.mem_children_iff]
    split
    · rw [List.mem_append, List.mem_singleton, or_iff_left new]
    · rfl

theorem Linked.nodup_children_attach (p : NodeId) :
    ((doc.append parent child).children p).Nodup := by
  rw [children_append ready.parent_lt]
  split
  · refine List.nodup_append.2 ⟨linked.nodup_children p, List.nodup_singleton child, ?_⟩
    intro c member c' new same
    rw [same, List.mem_singleton.1 new] at member
    exact linked.notMem_children ready p member
  · exact linked.nodup_children p

theorem Linked.neighbours_attach {p : NodeId} {i : Nat} {x y : NodeId}
    (atX : ((doc.append parent child).children p)[i]? = some x)
    (atY : ((doc.append parent child).children p)[i + 1]? = some y) :
    (doc.append parent child).next? x = some y ∧
      (doc.append parent child).previous? y = some x := by
  rw [children_append ready.parent_lt] at atX atY
  rw [next?_append fun _ => linked.lt_of_getLast?, linked.previous?_attach ready]
  -- neighbours of before stay neighbours unless the first one was the last child
  have old {q : NodeId} (atX : (doc.children q)[i]? = some x)
      (atY : (doc.children q)[i + 1]? = some y)
      (notLast : (doc.children parent).getLast? ≠ some x) :
      (if (doc.children parent).getLast? = some x then some child else doc.next? x) = some y ∧
        (if y = child then (doc.children parent).getLast? else doc.previous? y) = some x := by
    have known := linked.ne_of_mem_children ready (List.mem_of_getElem? atY)
    rw [if_neg notLast, if_neg known]
    exact linked.neighbours q i x y atX atY
  by_cases here : p = parent
  · rw [if_pos here, here, getElem?_concat_iff] at atX atY
    rcases atX with atX | ⟨xAtEnd, -⟩
    · rcases atY with atY | ⟨yAtEnd, isChild⟩
      · have inside := (List.getElem?_eq_some_iff.1 atY).1
        refine old atX atY fun isLast => ?_
        rw [List.getLast?_eq_getElem?, ← atX] at isLast
        have samePlace :=
          (List.getElem?_inj (by omega) (linked.nodup_children parent)).1 isLast
        omega
      · have isLast : (doc.children parent).getLast? = some x := by
          rw [List.getLast?_eq_getElem?, ← yAtEnd]
          exact atX
        rw [if_pos isLast, if_pos isChild, isChild]
        exact ⟨rfl, isLast⟩
    · rcases atY with atY | ⟨yAtEnd, -⟩
      · have inside := (List.getElem?_eq_some_iff.1 atY).1
        omega
      · omega
  · rw [if_neg here] at atX atY
    exact old atX atY (linked.getLast?_ne (List.mem_of_getElem? atX) here)

theorem Linked.first_attach {p c : NodeId}
    (atHead : ((doc.append parent child).children p).head? = some c) :
    (doc.append parent child).previous? c = none := by
  rw [children_append ready.parent_lt] at atHead
  rw [linked.previous?_attach ready]
  have old {q : NodeId} (atHead : (doc.children q).head? = some c) :
      (if c = child then (doc.children parent).getLast? else doc.previous? c) = none := by
    have known := linked.ne_of_mem_children ready (List.mem_of_head? atHead)
    rw [if_neg known]
    exact linked.first q c atHead
  by_cases here : p = parent
  · rw [if_pos here, here] at atHead
    cases empty : doc.children parent with
    | nil =>
      rw [empty] at atHead
      rw [if_pos (Option.some.inj atHead).symm]
      rfl
    | cons first rest =>
      have inside : (doc.children parent).head? = some c := by
        rw [empty] at atHead ⊢
        exact atHead
      rw [← empty]
      exact old inside
  · rw [if_neg here] at atHead
    exact old atHead

theorem Linked.last_attach {p c : NodeId}
    (atLast : ((doc.append parent child).children p).getLast? = some c) :
    (doc.append parent child).next? c = none := by
  rw [children_append ready.parent_lt] at atLast
  rw [next?_append fun _ => linked.lt_of_getLast?]
  by_cases here : p = parent
  · rw [if_pos here, List.getLast?_concat] at atLast
    rw [← Option.some.inj atLast, if_neg, (linked.detached child ready.single).1]
    exact fun isLast => linked.notMem_children ready parent (List.mem_of_getLast? isLast)
  · rw [if_neg here] at atLast
    rw [if_neg (linked.getLast?_ne (List.mem_of_getLast? atLast) here)]
    exact linked.last p c atLast

theorem Linked.detached_attach (alone : (doc.append parent child).parent? id = none) :
    (doc.append parent child).next? id = none ∧ (doc.append parent child).previous? id = none := by
  rw [parent?_append ready.child_lt] at alone
  rw [next?_append fun _ => linked.lt_of_getLast?, linked.previous?_attach ready]
  split at alone
  · cases alone
  · rename_i other
    have notLast : (doc.children parent).getLast? ≠ some id := by
      intro isLast
      have below := (linked.mem_children_iff parent id).1 (List.mem_of_getLast? isLast)
      rw [alone] at below
      cases below
    rw [if_neg notLast, if_neg other]
    exact linked.detached id alone

end Attaching

/-- A node that stands nowhere can be put behind the children of another one without breaking the
links. -/
theorem Linked.append (linked : doc.Linked) (ready : doc.Attachable parent child) :
    (doc.append parent child).Linked := by
  constructor
  case children_lt =>
    intro p c member
    rw [size_append]
    rw [children_append ready.parent_lt] at member
    split at member
    · rcases List.mem_append.1 member with old | new
      · exact linked.children_lt p c old
      · rw [List.mem_singleton.1 new]
        exact ready.child_lt
    · exact linked.children_lt p c member
  case parent_lt =>
    intro id p link
    rw [size_append]
    rw [parent?_append ready.child_lt] at link
    split at link
    · exact Option.some.inj link ▸ ready.parent_lt
    · exact linked.parent_lt id p link
  case next_lt =>
    intro id next link
    rw [size_append]
    rw [next?_append fun _ => linked.lt_of_getLast?] at link
    split at link
    · exact Option.some.inj link ▸ ready.child_lt
    · exact linked.next_lt id next link
  case previous_lt =>
    intro id previous link
    rw [size_append]
    rw [linked.previous?_attach ready] at link
    split at link
    · exact linked.lt_of_getLast? link
    · exact linked.previous_lt id previous link
  case mem_children_iff => exact linked.mem_children_attach_iff ready
  case nodup_children => exact linked.nodup_children_attach ready
  case neighbours => exact fun _ _ _ _ => linked.neighbours_attach ready
  case first => exact fun _ _ => linked.first_attach ready
  case last => exact fun _ _ => linked.last_attach ready
  case detached => exact fun _ => linked.detached_attach ready
  case acyclic => exact linked.acyclic_append ready.child_lt ready.apart ready.clear

end Document

end Selectors
