import Mathlib.Data.List.Chain
import Selectors.Proofs.Links

/-!
The order of a tree. `Document.Listing` is pre-order as a relation, by recursion on the children and
without a bound; `Document.Walk` is the same order as a walk that keeps a stack. Where no walk comes
back to where it started, `Document.descendants` lists the nodes below a node in this order
(`listing_descendants`): a way down meets every node at most once, so it is never longer than the
bound. In a linked document no node is listed twice (`Linked.nodup_descendants`).
-/

namespace Selectors

namespace Document

variable {doc doc' : Document} {id a b x : NodeId} {tops visited stack later : List NodeId}

/-! ## What stands below what -/

/-- Going from a node to its children, once or more often, leads to another one. -/
def Contains (doc : Document) : NodeId → NodeId → Prop :=
  Relation.TransGen fun a b => b ∈ doc.children a

/-- No way along the parents and none along the children comes back to where it started. -/
structure Loopless (doc : Document) : Prop where
  parents : Acyclic doc.parent?
  children : ∀ id, ¬ doc.Contains id id

/-- Parents and children are nodes of the document. -/
structure Closed (doc : Document) : Prop where
  children_lt : ∀ parent, ∀ child ∈ doc.children parent, child < doc.size
  parent_lt : ∀ id parent, doc.parent? id = some parent → parent < doc.size

theorem contains_iff_child :
    doc.Contains a b ↔ ∃ child ∈ doc.children a, child = b ∨ doc.Contains child b := by
  unfold Contains
  rw [Relation.TransGen.head'_iff]
  refine exists_congr fun child => and_congr_right fun _ => ?_
  rw [Relation.reflTransGen_iff_eq_or_transGen, @eq_comm _ b child]

theorem Closed.lt_of_contains (closed : doc.Closed) (contains : doc.Contains a b) :
    b < doc.size := by
  obtain ⟨parent, -, member⟩ := Relation.TransGen.tail'_iff.1 contains
  exact closed.children_lt parent b member

theorem Linked.contains_iff_leads (linked : doc.Linked) :
    doc.Contains a b ↔ Leads doc.parent? b a := by
  have same : (fun a b => b ∈ doc.children a) =
      Function.swap fun b a => doc.parent? b = some a := by
    funext a b
    exact propext (linked.mem_children_iff a b)
  unfold Contains Leads
  rw [same, Relation.transGen_swap]

theorem Linked.closed (linked : doc.Linked) : doc.Closed where
  children_lt := linked.children_lt
  parent_lt := linked.parent_lt

theorem Linked.loopless (linked : doc.Linked) : doc.Loopless where
  parents := linked.acyclic
  children id back := linked.acyclic id (linked.contains_iff_leads.1 back)

theorem SameLinks.closed (same : SameLinks doc doc') (closed : doc.Closed) : doc'.Closed where
  children_lt parent child member := by
    rw [same.children] at member
    exact Nat.lt_of_lt_of_le (closed.children_lt parent child member) same.size_le
  parent_lt id parent link := by
    rw [same.parent?] at link
    exact Nat.lt_of_lt_of_le (closed.parent_lt id parent link) same.size_le

theorem SameLinks.loopless (same : SameLinks doc doc') (loopless : doc.Loopless) :
    doc'.Loopless := by
  have parents : doc'.parent? = doc.parent? := funext same.parent?
  have children : doc'.children = doc.children := funext same.children
  constructor
  case parents => exact parents ▸ loopless.parents
  case children =>
    unfold Contains
    rw [children]
    exact loopless.children

/-! ## Pre-order -/

/-- Each of some nodes in turn, followed by the listing of its children. -/
inductive Listing (doc : Document) : List NodeId → List NodeId → Prop
  | nil : Listing doc [] []
  | cons {id : NodeId} {rest below others : List NodeId} :
    Listing doc (doc.children id) below → Listing doc rest others →
    Listing doc (id :: rest) (id :: (below ++ others))

namespace Listing

/-- There is one listing at most. -/
theorem unique {other : List NodeId} (first : doc.Listing tops visited)
    (second : doc.Listing tops other) : visited = other := by
  induction first generalizing other with
  | nil =>
    cases second
    rfl
  | cons _ _ ihBelow ihOthers =>
    cases second with
    | cons below others => rw [ihBelow below, ihOthers others]

/-- Listed are the nodes themselves and all that stands below them. -/
theorem mem_iff (listing : doc.Listing tops visited) :
    x ∈ visited ↔ ∃ top ∈ tops, top = x ∨ doc.Contains top x := by
  induction listing with
  | nil => simp
  | cons _ _ ihBelow ihOthers =>
    rw [List.mem_cons, List.mem_append, ihBelow, ihOthers, ← contains_iff_child]
    simp only [List.mem_cons, exists_eq_or_imp, or_assoc, @eq_comm _ x]

/-- Behind a node stands the listing of its children. -/
theorem split (listing : doc.Listing tops visited) (member : x ∈ visited) :
    ∃ front below back, visited = front ++ x :: (below ++ back) ∧
      doc.Listing (doc.children x) below := by
  induction listing with
  | nil => cases member
  | @cons id rest below others inside _ ihBelow ihOthers =>
    rcases List.mem_cons.1 member with here | later
    · subst here
      exact ⟨[], below, others, rfl, inside⟩
    · rcases List.mem_append.1 later with deeper | behind
      · obtain ⟨front, below', back, parts, children⟩ := ihBelow deeper
        refine ⟨id :: front, below', back ++ others, ?_, children⟩
        rw [parts]
        simp only [List.append_assoc, List.cons_append]
      · obtain ⟨front, below', back, parts, children⟩ := ihOthers behind
        refine ⟨id :: (below ++ front), below', back, ?_, children⟩
        rw [parts]
        simp only [List.append_assoc, List.cons_append]

/-- Documents with the same children have the same listings. -/
theorem of_children_eq (same : doc'.children = doc.children)
    (listing : doc.Listing tops visited) : doc'.Listing tops visited := by
  induction listing with
  | nil => exact .nil
  | cons _ _ ihBelow ihOthers =>
    rw [← same] at ihBelow
    exact .cons ihBelow ihOthers

end Listing

/-! ## The bound is high enough -/

/-- If no way down from a node is longer than the depth, all that stands below it is listed. -/
theorem listing_below {depth : Nat}
    (short : ∀ path, List.IsChain (fun a b => b ∈ doc.children a) (id :: path) →
      path.length ≤ depth) :
    doc.Listing (doc.children id) (doc.below depth id) := by
  induction depth generalizing id with
  | zero =>
    have leaf : doc.children id = [] := by
      refine List.eq_nil_iff_forall_not_mem.2 fun child member => ?_
      have long := short [child] (List.isChain_pair.2 member)
      exact Nat.not_succ_le_zero 0 long
    rw [leaf]
    exact .nil
  | succ depth ih =>
    have inside : ∀ child ∈ doc.children id,
        doc.Listing (doc.children child) (doc.below depth child) := by
      intro child member
      refine ih fun path chain => ?_
      have longer := short (child :: path) (List.isChain_cons_cons.2 ⟨member, chain⟩)
      exact Nat.le_of_succ_le_succ longer
    rw [below]
    -- the children are listed one after the other
    generalize doc.children id = children at inside
    induction children with
    | nil => exact .nil
    | cons child rest ihRest =>
      have first := inside child (List.mem_cons_self ..)
      have others := ihRest fun c member => inside c (List.mem_cons_of_mem _ member)
      exact .cons first others

/-- A way down meets no node twice, so it has at most as many steps as there are nodes. -/
theorem length_le_of_isChain (closed : doc.Closed) (loopless : doc.Loopless) {path : List NodeId}
    (chain : List.IsChain (fun a b => b ∈ doc.children a) (id :: path)) :
    path.length ≤ doc.size := by
  have linked : List.IsChain doc.Contains (id :: path) :=
    chain.imp fun _ _ member => Relation.TransGen.single member
  have ordered : List.Pairwise doc.Contains (id :: path) := by
    have : IsTrans NodeId doc.Contains := ⟨fun _ _ _ => Relation.TransGen.trans⟩
    exact List.isChain_iff_pairwise.1 linked
  obtain ⟨below, later⟩ := List.pairwise_cons.1 ordered
  have differ {a b : NodeId} (contains : doc.Contains a b) : a ≠ b := fun same =>
    loopless.children b (same ▸ contains)
  have distinct : path.Nodup := later.imp differ
  exact length_le_of_nodup_of_lt distinct fun b member => closed.lt_of_contains (below b member)

/-- The nodes below a node are listed in pre-order. -/
theorem listing_descendants (closed : doc.Closed) (loopless : doc.Loopless) (id : NodeId) :
    doc.Listing (doc.children id) (doc.descendants id) :=
  listing_below fun _ => length_le_of_isChain closed loopless

theorem mem_descendants_iff (closed : doc.Closed) (loopless : doc.Loopless) :
    x ∈ doc.descendants id ↔ doc.Contains id x := by
  rw [(listing_descendants closed loopless id).mem_iff, ← contains_iff_child]

/-! ## The walk with a stack -/

/-- One turn of a walk that keeps on a stack what it still has to visit, the top at the end. The
node on top is visited, and its children take its place, the first one on top. -/
def turn (doc : Document) (stack : List NodeId) : Option (NodeId × List NodeId) :=
  stack.getLast?.map fun id => (id, stack.dropLast ++ (doc.children id).reverse)

/-- A walk that goes on turn after turn until its stack is empty visits these nodes. -/
inductive Walk (doc : Document) : List NodeId → List NodeId → Prop
  | stop {stack : List NodeId} : doc.turn stack = none → Walk doc stack []
  | visit {stack stack' : List NodeId} {id : NodeId} {later : List NodeId} :
    doc.turn stack = some (id, stack') → Walk doc stack' later → Walk doc stack (id :: later)

/-- A listing is visited before what lies deeper in the stack. -/
theorem Listing.walk (listing : doc.Listing tops visited) (rest : doc.Walk stack later) :
    doc.Walk (stack ++ tops.reverse) (visited ++ later) := by
  induction listing generalizing stack later with
  | nil =>
    rw [List.reverse_nil, List.append_nil]
    exact rest
  | @cons id others _ _ _ _ ihBelow ihOthers =>
    have top : doc.turn (stack ++ (id :: others).reverse) =
        some (id, stack ++ others.reverse ++ (doc.children id).reverse) := by
      rw [turn, List.reverse_cons, ← List.append_assoc, List.getLast?_concat, List.dropLast_concat]
      rfl
    rw [List.cons_append, List.append_assoc]
    exact .visit top (ihBelow (ihOthers rest))

/-- The walk that starts with the children of a node ends, and it visits the nodes below it. -/
theorem walk_descendants (closed : doc.Closed) (loopless : doc.Loopless) (id : NodeId) :
    doc.Walk (doc.children id).reverse (doc.descendants id) := by
  have ended : doc.Walk [] [] := .stop rfl
  have walk := (listing_descendants closed loopless id).walk ended
  rwa [List.nil_append, List.append_nil] at walk

/-! ## No node is listed twice -/

/-- Two nodes above one node stand one above the other, if they differ. -/
theorem Linked.nested (linked : doc.Linked) (first : doc.Contains a x) (second : doc.Contains b x) :
    a = b ∨ doc.Contains a b ∨ doc.Contains b a := by
  have single : Relator.RightUnique fun b a => doc.parent? b = some a := by
    intro _ _ _ one other
    exact Option.some.inj (one.symm.trans other)
  have toA := (linked.contains_iff_leads.1 first).to_reflTransGen
  have toB := (linked.contains_iff_leads.1 second).to_reflTransGen
  rcases Relation.ReflTransGen.total_of_right_unique single toA toB with up | up
  · rcases Relation.reflTransGen_iff_eq_or_transGen.1 up with same | leads
    · exact Or.inl same.symm
    · exact Or.inr (Or.inr (linked.contains_iff_leads.2 leads))
  · rcases Relation.reflTransGen_iff_eq_or_transGen.1 up with same | leads
    · exact Or.inl same
    · exact Or.inr (Or.inl (linked.contains_iff_leads.2 leads))

/-- No child of a node stands below another one. -/
theorem Linked.apart_of_children (linked : doc.Linked) (inA : a ∈ doc.children id)
    (inB : b ∈ doc.children id) : ¬ doc.Contains a b := by
  intro contains
  obtain ⟨parent, toParent, member⟩ := Relation.TransGen.tail'_iff.1 contains
  have same : parent = id := by
    rw [linked.mem_children_iff] at member inB
    exact Option.some.inj (member.symm.trans inB)
  subst same
  exact linked.loopless.children parent (Relation.TransGen.head' inA toParent)

/-- A listing repeats no node, if its nodes differ and none of them stands below another one. -/
theorem Linked.nodup_listing (linked : doc.Linked) (listing : doc.Listing tops visited)
    (distinct : tops.Nodup) (apart : ∀ a ∈ tops, ∀ b ∈ tops, ¬ doc.Contains a b) :
    visited.Nodup := by
  induction listing with
  | nil => exact List.nodup_nil
  | @cons id rest below others inside behind ihBelow ihOthers =>
    obtain ⟨new, distinctRest⟩ := List.nodup_cons.1 distinct
    have atHead : id ∈ id :: rest := List.mem_cons_self ..
    have atRest {b : NodeId} (member : b ∈ rest) : b ∈ id :: rest := List.mem_cons_of_mem _ member
    have belowHere {y : NodeId} (member : y ∈ below) : doc.Contains id y :=
      contains_iff_child.2 (inside.mem_iff.1 member)
    have nodupBelow : below.Nodup :=
      ihBelow (linked.nodup_children id) fun _ inA _ inB => linked.apart_of_children inA inB
    have nodupOthers : others.Nodup :=
      ihOthers distinctRest fun a inA b inB => apart a (atRest inA) b (atRest inB)
    have notBelow : id ∉ below := fun member => linked.loopless.children id (belowHere member)
    have notOthers : id ∉ others := by
      intro member
      obtain ⟨top, inRest, same | contains⟩ := behind.mem_iff.1 member
      · exact new (same ▸ inRest)
      · exact apart top (atRest inRest) id atHead contains
    have disjoint : ∀ y ∈ below, ∀ z ∈ others, y ≠ z := by
      intro y inBelow z inOthers same
      subst same
      obtain ⟨top, inRest, same | contains⟩ := behind.mem_iff.1 inOthers
      · exact apart id atHead top (atRest inRest) (same ▸ belowHere inBelow)
      · rcases linked.nested (belowHere inBelow) contains with same | down | up
        · exact new (same ▸ inRest)
        · exact apart id atHead top (atRest inRest) down
        · exact apart top (atRest inRest) id atHead up
    rw [List.nodup_cons, List.mem_append, not_or]
    exact ⟨⟨notBelow, notOthers⟩, List.nodup_append.2 ⟨nodupBelow, nodupOthers, disjoint⟩⟩

theorem Linked.nodup_descendants (linked : doc.Linked) (id : NodeId) :
    (doc.descendants id).Nodup :=
  linked.nodup_listing (listing_descendants linked.closed linked.loopless id)
    (linked.nodup_children id) fun _ inA _ inB => linked.apart_of_children inA inB

end Document

end Selectors
