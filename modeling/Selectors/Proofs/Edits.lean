import Selectors.Document.Language
import Selectors.Proofs.Links

/-!
Documents that a program can come to. `Edit` is one change, `Start` is a document as it is made,
and a document is `Reachable` if a run of edits leads to it from a start. In which order a tree is
built is left open: a node may be appended before or after the nodes below it.

Loading a text is such a run itself: `Outline.place` appends new nodes and nothing else
(`Outline.edits_place`).
-/

namespace Selectors

namespace Document

variable {doc doc' : Document} {parent : NodeId}

/-- One change that a program makes to a document. A new node is put below a node that is there
already, so never below itself. Copying makes no change, and asking for a language changes only what
is remembered. -/
inductive Edit : Document → Document → Prop
  | alloc {doc : Document} (content : Content) : Edit doc (doc.alloc content)
  | append {doc : Document} {parent child : NodeId} :
    doc.Attachable parent child → Edit doc (doc.append parent child)
  | appendNew {doc : Document} {parent : NodeId} (content : Content) :
    parent < doc.size → Edit doc (doc.appendNew parent content)
  | changeContent {doc : Document} (id : NodeId) (change : Content → Content) :
    Edit doc (doc.changeContent id change)
  | setTransportLanguage {doc : Document} (language? : Option String) :
    Edit doc (doc.setTransportLanguage language?)
  | askLanguage {doc : Document} (e : Element) : Edit doc (doc.askLanguage e).2
  | copy {doc : Document} : Edit doc doc

/-- Any number of changes. -/
abbrev Edits : Document → Document → Prop := Relation.ReflTransGen Edit

/-- A document as it is made: with nothing in it, or from a text. -/
inductive Start : Document → Prop
  | empty (html : Bool) : Start (Document.empty html)
  | load {options : LoadOptions} {source : String} {doc : Document} {warnings : List Warning} :
    Document.load options source = (.ok doc, warnings) → Start doc

/-- A run of changes leads to the document. -/
def Reachable (doc : Document) : Prop := ∃ start, Start start ∧ Edits start doc

theorem Reachable.edit (reachable : Reachable doc) (edit : Edit doc doc') : Reachable doc' := by
  obtain ⟨start, made, edits⟩ := reachable
  exact ⟨start, made, edits.tail edit⟩

/-! ## No edit breaks the links -/

theorem nodes_askLanguage (e : Element) : (doc.askLanguage e).2.nodes = doc.nodes := by
  unfold askLanguage remember
  dsimp only
  split <;> rfl

/-- A new node can be put below any node there was: nothing points at it. -/
theorem Linked.attachable_alloc (linked : doc.Linked) (inside : parent < doc.size)
    (content : Content) : (doc.alloc content).Attachable parent doc.size := by
  have same := sameLinks_alloc doc content
  constructor
  case parent_lt => exact Nat.lt_of_lt_of_le inside same.size_le
  case child_lt =>
    rw [size_alloc]
    exact Nat.lt_succ_self _
  case single =>
    have unknown : doc.node? doc.size = none := Array.getElem?_eq_none (Nat.le_refl _)
    rw [same.parent?, parent?, unknown, Option.bind_none]
  case apart => exact Nat.ne_of_gt inside
  case clear =>
    intro above
    obtain ⟨below, -, step⟩ := Relation.TransGen.tail'_iff.1 (leads_of_mem_trail above)
    rw [same.parent?] at step
    exact Nat.lt_irrefl _ (linked.parent_lt below doc.size step)

theorem Edit.linked (edit : Edit doc doc') (linked : doc.Linked) : doc'.Linked := by
  cases edit with
  | alloc content => exact (sameLinks_alloc doc content).linked linked
  | append ready => exact linked.append ready
  | appendNew content inside =>
    have grown := (sameLinks_alloc doc content).linked linked
    exact grown.append (linked.attachable_alloc inside content)
  | changeContent id change => exact (sameLinks_changeContent doc id change).linked linked
  | setTransportLanguage language? =>
    have same : SameLinks doc (doc.setTransportLanguage language?) := sameLinks_of_nodes_eq rfl
    exact same.linked linked
  | askLanguage e =>
    have same : SameLinks doc (doc.askLanguage e).2 := sameLinks_of_nodes_eq (nodes_askLanguage e)
    exact same.linked linked
  | copy => exact linked

theorem Edits.linked (edits : Edits doc doc') (linked : doc.Linked) : doc'.Linked := by
  induction edits with
  | refl => exact linked
  | tail _ edit ih => exact edit.linked ih

theorem linked_empty (html : Bool) : (Document.empty html).Linked := by
  have bare (id : NodeId) : (Document.empty html).linksAt id = { content := .document } := by
    unfold linksAt node? empty
    cases id <;> rfl
  have parents (id : NodeId) : (Document.empty html).parent? id = none := by
    rw [← parent?_linksAt, bare]
  have childrens (id : NodeId) : (Document.empty html).children id = [] := by
    rw [← children_linksAt, bare]
  have nexts (id : NodeId) : (Document.empty html).next? id = none := by
    rw [← next?_linksAt, bare]
  have previouses (id : NodeId) : (Document.empty html).previous? id = none := by
    rw [← previous?_linksAt, bare]
  constructor
  case acyclic =>
    intro id back
    obtain ⟨other, step, -⟩ := Relation.TransGen.head'_iff.1 back
    rw [parents] at step
    cases step
  all_goals simp [parents, childrens, nexts, previouses]

/-! ## Loading is a run of edits -/

theorem size_appendNew (content : Content) :
    (doc.appendNew parent content).size = doc.size + 1 := by
  rw [appendNew, size_append, size_alloc]

theorem Edit.size_le (edit : Edit doc doc') : doc.size ≤ doc'.size := by
  cases edit with
  | alloc content => exact (sameLinks_alloc doc content).size_le
  | append ready => exact Nat.le_of_eq (size_append ..).symm
  | appendNew content _ =>
    rw [size_appendNew]
    exact Nat.le_succ _
  | changeContent id change => exact (sameLinks_changeContent doc id change).size_le
  | setTransportLanguage language? => exact Nat.le_refl _
  | askLanguage e => exact Nat.le_of_eq (congrArg Array.size (nodes_askLanguage e)).symm
  | copy => exact Nat.le_refl _

theorem Edits.size_le (edits : Edits doc doc') : doc.size ≤ doc'.size := by
  induction edits with
  | refl => exact Nat.le_refl _
  | tail _ edit ih => exact Nat.le_trans ih edit.size_le

end Document

mutual

/-- Placing an outline below a node is a run of edits. -/
theorem Outline.edits_place {parent : NodeId} : ∀ (outline : Outline) {doc : Document},
    doc.Linked → parent < doc.size → doc.Edits (outline.place parent doc)
  | .text value, _, _, inside => .single (.appendNew (.text value) inside)
  | .comment value, _, _, inside => .single (.appendNew (.comment value) inside)
  | .element data children, doc, linked, inside => by
    have edit : Document.Edit doc _ := .appendNew (.element data) inside
    have newInside : doc.size < (doc.appendNew parent (.element data)).size := by
      rw [Document.size_appendNew]
      exact Nat.lt_succ_self _
    exact .head edit (Outline.edits_placeAll children (edit.linked linked) newInside)

theorem Outline.edits_placeAll {parent : NodeId} : ∀ (outlines : List Outline) {doc : Document},
    doc.Linked → parent < doc.size → doc.Edits (Outline.placeAll parent outlines doc)
  | [], _, _, _ => .refl
  | node :: rest, _, linked, inside => by
    have first := Outline.edits_place node linked inside
    have stillInside := Nat.lt_of_lt_of_le inside first.size_le
    exact first.trans (Outline.edits_placeAll rest (first.linked linked) stillInside)

end

namespace Document

variable {doc : Document}

/-- What loading made is an outline below the document node. -/
theorem exists_outline_of_load {options : LoadOptions} {source : String} {warnings : List Warning}
    (loaded : load options source = (.ok doc, warnings)) :
    ∃ top, doc = ofOutline options top := by
  unfold load at loaded
  cases description : describe source with
  | error e =>
    rw [description] at loaded
    cases loaded
  | ok description =>
    rw [description] at loaded
    have result := congrArg Prod.fst loaded
    dsimp only at result
    unfold ofDescription at result
    split at result
    · dsimp only at result
      split at result
      · rename_i top _
        exact ⟨top, (Except.ok.inj result).symm⟩
      · cases result
    · cases result

theorem linked_ofOutline (options : LoadOptions) (top : Outline) :
    (ofOutline options top).Linked := by
  have edit : Edit (Document.empty options.html) _ :=
    .setTransportLanguage options.transportLanguage?
  have linked := edit.linked (linked_empty options.html)
  exact (top.edits_place linked Nat.zero_lt_one).linked linked

theorem Start.linked (start : Start doc) : doc.Linked := by
  cases start with
  | empty html => exact linked_empty html
  | @load options _ _ _ loaded =>
    obtain ⟨top, rfl⟩ := exists_outline_of_load loaded
    exact linked_ofOutline options top

/-- **The links of every document that a program can come to agree with each other.** Whatever the
start and whatever the order of the edits, every link leads to a node, children and parents say the
same, neighbours point at each other, and following parents never comes back. -/
theorem linked_of_reachable (reachable : Reachable doc) : doc.Linked := by
  obtain ⟨start, made, edits⟩ := reachable
  exact edits.linked made.linked

/-- Three nodes that stand nowhere. -/
def scattered : Document :=
  (((empty true).alloc (.text "a")).alloc (.comment "b")).alloc (.element { name := "p" })

/-- A tree built from below: the element gets its children before it gets a parent. -/
theorem linked_of_tree_from_below :
    (((scattered.append 3 1).append 3 2).append root 3).Linked := by
  have allocated : Edits (empty true) scattered :=
    ((Relation.ReflTransGen.single (.alloc _)).tail (.alloc _)).tail (.alloc _)
  have first : Edit scattered (scattered.append 3 1) :=
    .append ⟨by decide, by decide, by decide, by decide, by decide⟩
  have second : Edit (scattered.append 3 1) ((scattered.append 3 1).append 3 2) :=
    .append ⟨by decide, by decide, by decide, by decide, by decide⟩
  have third : Edit _ (((scattered.append 3 1).append 3 2).append root 3) :=
    .append ⟨by decide, by decide, by decide, by decide, by decide⟩
  exact linked_of_reachable ⟨_, .empty true, ((allocated.tail first).tail second).tail third⟩

end Document

end Selectors
