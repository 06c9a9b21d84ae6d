import Selectors.Document.Element

/-!
Documents as arenas of nodes. A node is named by its place in the arena, in the order of
allocation; the document node is node 0. Nodes point at their parent, their children and their
neighbours among the children.

`Document.append` puts a node behind the last child of another one. It takes nothing away: a node
that already has a parent stays in the list of the old one. The lemmas `node?_alloc`,
`node?_update` and `node?_append` say what becomes of every node.
-/

namespace Selectors

/-- The place of a node in its arena. -/
abbrev NodeId : Type := Nat

/-- What a node is. -/
inductive Content : Type where
  | document
  | element (data : ElementData)
  | text (text : String)
  | comment (text : String)
deriving DecidableEq, Repr

/-- A node with its links. -/
structure Node : Type where
  content : Content
  parent? : Option NodeId := none
  children : List NodeId := []
  next? : Option NodeId := none
  previous? : Option NodeId := none
deriving DecidableEq, Repr

/-- A document. -/
structure Document : Type where
  nodes : Array Node
  /-- It is an HTML document. -/
  html : Bool := false
  /-- The language that came with the document, used where nothing in it declares one. -/
  transportLanguage? : Option String := none
  /-- The language set by a pragma under the document element, once it has been looked for. -/
  pragma? : Option (Option String) := none
deriving DecidableEq

namespace Document

/-- The document node. -/
def root : NodeId := 0

/-- A document with nothing in it. -/
def empty (html : Bool) : Document where
  nodes := #[{ content := .document }]
  html := html

instance : Inhabited Document := ⟨empty false⟩

/-! ## Reading nodes -/

/-- The number of nodes, attached or not. -/
def size (doc : Document) : Nat := doc.nodes.size

/-- A node, if there is one of that name. -/
def node? (doc : Document) (id : NodeId) : Option Node := doc.nodes[id]?

/-- The parent of a node. -/
def parent? (doc : Document) (id : NodeId) : Option NodeId := (doc.node? id).bind Node.parent?

/-- The children of a node in document order. -/
def children (doc : Document) (id : NodeId) : List NodeId :=
  (doc.node? id).elim [] Node.children

/-- The neighbour behind a node. -/
def next? (doc : Document) (id : NodeId) : Option NodeId := (doc.node? id).bind Node.next?

/-- The neighbour in front of a node. -/
def previous? (doc : Document) (id : NodeId) : Option NodeId :=
  (doc.node? id).bind Node.previous?

/-- The data of a node that is an element. -/
def elementData? (doc : Document) (id : NodeId) : Option ElementData :=
  match doc.node? id with
  | some { content := .element data, .. } => some data
  | _ => none

/-- The text of a text node. -/
def text? (doc : Document) (id : NodeId) : Option String :=
  match doc.node? id with
  | some { content := .text text, .. } => some text
  | _ => none

/-! ## Changing a document -/

/-- Changes one node, if it exists. -/
def update (doc : Document) (id : NodeId) (change : Node → Node) : Document :=
  { doc with nodes := doc.nodes.modify id change }

/-- Adds a node without links. Its name is the size before. -/
def alloc (doc : Document) (content : Content) : Document :=
  { doc with nodes := doc.nodes.push { content := content } }

/-- Forgets the language of the pragma, which a change may have touched. -/
def forgetPragma (doc : Document) : Document := { doc with pragma? := none }

/-- Makes two nodes neighbours. -/
def linkNeighbours (doc : Document) (front back : NodeId) : Document :=
  (doc.update front fun n => { n with next? := some back }).update back
    fun n => { n with previous? := some front }

/-- Makes `child` the last child of `parent`, behind the child that was last before. The links of
an earlier place are not cleared. -/
def append (doc : Document) (parent child : NodeId) : Document :=
  let placed :=
    (doc.update parent fun n => { n with children := n.children ++ [child] }).update child
      fun n => { n with parent? := some parent }
  match (doc.children parent).getLast? with
  | none => placed.forgetPragma
  | some last => (placed.linkNeighbours last child).forgetPragma

/-- Appends a node, if both nodes exist. -/
def append? (doc : Document) (parent child : NodeId) : Option Document :=
  if parent < doc.size ∧ child < doc.size then some (doc.append parent child) else none

/-- Adds a node and appends it. -/
def appendNew (doc : Document) (parent : NodeId) (content : Content) : Document :=
  (doc.alloc content).append parent doc.size

/-- Changes what a node is and keeps its links. -/
def changeContent (doc : Document) (id : NodeId) (change : Content → Content) : Document :=
  (doc.update id fun n => { n with content := change n.content }).forgetPragma

/-- Sets the language that comes with the document. -/
def setTransportLanguage (doc : Document) (language? : Option String) : Document :=
  { doc with transportLanguage? := language? }

/-! ## What the changes do to the nodes -/

theorem node?_update (doc : Document) (id i : NodeId) (change : Node → Node) :
    (doc.update id change).node? i =
      (doc.node? i).map fun n => if i = id then change n else n := by
  simp only [node?, update, Array.getElem?_modify]
  by_cases h : i = id
  · simp [h]
  · simp [h, Ne.symm h]

theorem node?_alloc (doc : Document) (content : Content) (i : NodeId) :
    (doc.alloc content).node? i =
      if i = doc.size then some { content := content } else doc.node? i := by
  simp only [node?, alloc, size]
  exact Array.getElem?_push

theorem node?_forgetPragma (doc : Document) (i : NodeId) :
    doc.forgetPragma.node? i = doc.node? i := rfl

@[simp]
theorem size_update (doc : Document) (id : NodeId) (change : Node → Node) :
    (doc.update id change).size = doc.size := by
  simp [size, update]

@[simp]
theorem size_alloc (doc : Document) (content : Content) :
    (doc.alloc content).size = doc.size + 1 := by
  simp [size, alloc]

@[simp]
theorem size_append (doc : Document) (parent child : NodeId) :
    (doc.append parent child).size = doc.size := by
  unfold append
  cases (doc.children parent).getLast? <;> simp [size, update, forgetPragma, linkNeighbours]

/-- Every node after an append. Three nodes change: the parent gains a child, the child gains a
parent and a neighbour in front, and that neighbour gains a neighbour behind. -/
theorem node?_append (doc : Document) (parent child i : NodeId) :
    (doc.append parent child).node? i =
      (doc.node? i).map fun n =>
        { content := n.content
          parent? := if i = child then some parent else n.parent?
          children := if i = parent then n.children ++ [child] else n.children
          next? := if (doc.children parent).getLast? = some i then some child else n.next?
          previous? :=
            if i = child then (doc.children parent).getLast?.or n.previous?
            else n.previous? } := by
  unfold append
  cases (doc.children parent).getLast? with
  | none =>
    simp only [node?_forgetPragma, node?_update, Option.map_map]
    congr 1
    funext n
    simp only [Function.comp_apply]
    split <;> split <;> rfl
  | some last =>
    simp only [node?_forgetPragma, linkNeighbours, node?_update, Option.map_map]
    congr 1
    funext n
    simp only [Function.comp_apply, Option.some.injEq, @eq_comm _ last i]
    split <;> split <;> split <;> rfl

end Document

end Selectors
