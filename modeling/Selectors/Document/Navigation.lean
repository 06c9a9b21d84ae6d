import Selectors.Document

/-!
Walking a document. The first part walks over nodes of all kinds; the second one sees elements
alone: text and comments are passed over, and the document node is nobody's parent.

Walks follow stored links and are bounded by the number of nodes. In a document whose links form
no cycle no walk is longer than that, so the bound cuts nothing off.
-/

namespace Selectors

/-- The nodes met by following a link again and again, at most `fuel` of them. -/
def trail (link : NodeId → Option NodeId) : Nat → Option NodeId → List NodeId
  | 0, _ => []
  | _ + 1, none => []
  | fuel + 1, some id => id :: trail link fuel (link id)

/-- An element of a document: its node and its data. -/
structure Element : Type where
  id : NodeId
  data : ElementData
deriving DecidableEq

namespace Document

/-! ## Nodes of all kinds -/

/-- The ancestors of a node, the parent first. -/
def ancestors (doc : Document) (id : NodeId) : List NodeId :=
  trail doc.parent? doc.size (doc.parent? id)

/-- The siblings in front of a node, the nearest first. -/
def preceding (doc : Document) (id : NodeId) : List NodeId :=
  trail doc.previous? doc.size (doc.previous? id)

/-- The nodes below a node down to a given depth, each one before the nodes below it. -/
def below (doc : Document) : Nat → NodeId → List NodeId
  | 0, _ => []
  | depth + 1, id => (doc.children id).flatMap fun child => child :: doc.below depth child

/-- The nodes below a node in document order. -/
def descendants (doc : Document) (id : NodeId) : List NodeId := doc.below doc.size id

/-! ## Elements -/

/-- The element at a node, if the node is one. -/
def element? (doc : Document) (id : NodeId) : Option Element :=
  (doc.elementData? id).map fun data => ⟨id, data⟩

/-- All elements of the document in document order. -/
def elements (doc : Document) : List Element := (doc.descendants root).filterMap doc.element?

/-- The document element: the first element among the children of the document node. -/
def documentElement? (doc : Document) : Option Element :=
  (doc.children root).findSome? doc.element?

/-- The parent of an element, if that is an element. -/
def parentElement? (doc : Document) (e : Element) : Option Element :=
  (doc.parent? e.id).bind doc.element?

/-- The elements at the start of a list of nodes, up to the first node that is none. -/
def leadingElements (doc : Document) : List NodeId → List Element
  | [] => []
  | id :: rest =>
    match doc.element? id with
    | some e => e :: doc.leadingElements rest
    | none => []

/-- The ancestors of an element, the parent first, up to the first one that is no element. -/
def ancestorElements (doc : Document) (e : Element) : List Element :=
  doc.leadingElements (doc.ancestors e.id)

/-- The elements among the siblings in front, the nearest first. -/
def precedingElements (doc : Document) (e : Element) : List Element :=
  (doc.preceding e.id).filterMap doc.element?

/-- The nearest element among the siblings in front. -/
def previousElement? (doc : Document) (e : Element) : Option Element :=
  (doc.precedingElements e).head?

/-- The elements among the children of the parent, in document order. An element without a parent
is its own only sibling. -/
def siblings (doc : Document) (e : Element) : List Element :=
  match (doc.parent? e.id).elim [] doc.children with
  | [] => [e]
  | children => children.filterMap doc.element?

/-- The place of an element among its siblings, counted from zero. -/
def siblingIndex (doc : Document) (e : Element) : Nat :=
  ((doc.siblings e).findIdx? fun s => s.id == e.id).getD 0

/-- The number of siblings, the element itself included. -/
def siblingCount (doc : Document) (e : Element) : Nat := (doc.siblings e).length

/-- The siblings behind an element, the nearest first. -/
def followingElements (doc : Document) (e : Element) : List Element :=
  (doc.siblings e).drop (doc.siblingIndex e + 1)

/-- The elements among the children, in document order. -/
def childElements (doc : Document) (e : Element) : List Element :=
  (doc.children e.id).filterMap doc.element?

/-- An element and the elements below it, in document order. -/
def subtree (doc : Document) (e : Element) : List Element :=
  e :: (doc.descendants e.id).filterMap doc.element?

/-- An element has content if one of its children is an element or a text that is not empty. -/
def hasContent (doc : Document) (e : Element) : Bool :=
  (doc.children e.id).any fun child =>
    match (doc.node? child).map Node.content with
    | some (.element _) => true
    | some (.text text) => !text.isEmpty
    | _ => false

/-! ## First facts -/

/-- An element that was found at a node remembers the node. -/
theorem id_of_element? {doc : Document} {id : NodeId} {e : Element}
    (h : doc.element? id = some e) : e.id = id := by
  simp only [element?, Option.map_eq_some_iff] at h
  obtain ⟨_, _, rfl⟩ := h
  rfl

theorem leadingElements_eq (doc : Document) (ids : List NodeId) :
    doc.leadingElements ids =
      (ids.takeWhile fun id => (doc.element? id).isSome).filterMap doc.element? := by
  induction ids with
  | nil => rfl
  | cons id rest ih =>
    simp only [leadingElements]
    cases h : doc.element? id with
    | none => simp [h]
    | some e => simp [h, ih]

end Document

end Selectors
