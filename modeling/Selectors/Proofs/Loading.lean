import Selectors.Proofs.Edits
import Selectors.Proofs.Names
import Selectors.Proofs.TreeOrder

/-!
Loading keeps the whole document. The described nodes in pre-order (`Description.listing`) become
the nodes 1, 2, … of the document, and `Description.Mirrors` says, by recursion on the description,
that each one has the content and all four links that the description asks for.

The step is `Growth.cons`. Placing described siblings behind the children of a node leaves the nodes
that were there as they are, but for that node, which gains children, and the last child before,
which gains a neighbour (`gaining`).
-/

namespace Selectors

/-! ## Described nodes in order -/

namespace Description

/-- The described children of a node. -/
def children : Description → List Description
  | .element _ children => children
  | _ => []

mutual

/-- A described node and behind it those below it, in pre-order. -/
def listing : Description → List Description
  | .text value => [.text value]
  | .comment value => [.comment value]
  | .element head children => .element head children :: listings children

/-- Described nodes, each one with those below it behind it. -/
def listings : List Description → List Description
  | [] => []
  | node :: rest => listing node ++ listings rest

end

/-- The nodes of described siblings, the first of which is node `id`. Between two of them lie the
nodes below the first. -/
def places (id : NodeId) : List Description → List NodeId
  | [] => []
  | node :: rest => id :: places (id + node.listing.length) rest

/-- What a described node is in a document. -/
inductive Tells (html : Bool) : Description → Content → Prop
  | text (value : String) : Tells html (.text value) (.text value)
  | comment (value : String) : Tells html (.comment value) (.comment value)
  | element {head : ElementHead} {data : ElementData} (children : List Description) :
    head.Describes html data → Tells html (.element head children) (.element data)

/-- A node of the document is the described one: it has its content and these links. -/
def StandsAt (html : Bool) (doc : Document) (parent : NodeId) (previous? next? : Option NodeId)
    (id : NodeId) (description : Description) : Prop :=
  ∃ content, description.Tells html content ∧ doc.node? id = some
    { content := content
      parent? := some parent
      children := places (id + 1) description.children
      next? := next?
      previous? := previous? }

mutual

/-- A described node is node `id` of the document, and all below it are the nodes behind that one,
in pre-order. -/
def Mirrors (html : Bool) (doc : Document) (parent : NodeId) (previous? next? : Option NodeId)
    (id : NodeId) : Description → Prop
  | .text value => StandsAt html doc parent previous? next? id (.text value)
  | .comment value => StandsAt html doc parent previous? next? id (.comment value)
  | .element head children =>
    StandsAt html doc parent previous? next? id (.element head children) ∧
      AllMirror html doc id none (id + 1) children

/-- The same for described siblings. They are neighbours in their order. -/
def AllMirror (html : Bool) (doc : Document) (parent : NodeId) (previous? : Option NodeId)
    (id : NodeId) : List Description → Prop
  | [] => True
  | node :: rest =>
    Mirrors html doc parent previous? (places (id + node.listing.length) rest).head? id node ∧
      AllMirror html doc parent (some id) (id + node.listing.length) rest

end

theorem listing_eq (d : Description) : d.listing = d :: listings d.children := by
  cases d <;> rfl

mutual

theorem children_induction {motive : List Description → Prop} (nil : motive [])
    (cons : ∀ d ds, motive d.children → motive ds → motive (d :: ds)) :
    ∀ d : Description, motive d.children
  | .text _ => nil
  | .comment _ => nil
  | .element _ children => forest_induction nil cons children

/-- Induction over described siblings: the children of the first one, and the others. -/
theorem forest_induction {motive : List Description → Prop} (nil : motive [])
    (cons : ∀ d ds, motive d.children → motive ds → motive (d :: ds)) : ∀ ds, motive ds
  | [] => nil
  | d :: ds => cons d ds (children_induction nil cons d) (forest_induction nil cons ds)

end

section Mirror

variable {html : Bool} {doc doc' : Document} {parent id : Nat} {previous? next? : Option NodeId}
  {d node : Description} {ds : List Description} {i : Nat}

theorem mirrors_iff :
    d.Mirrors html doc parent previous? next? id ↔
      d.StandsAt html doc parent previous? next? id ∧
        AllMirror html doc id none (id + 1) d.children := by
  cases d with
  | text value => exact (and_iff_left trivial).symm
  | comment value => exact (and_iff_left trivial).symm
  | element head children => exact Iff.rfl

theorem allMirror_cons_iff :
    AllMirror html doc parent previous? id (d :: ds) ↔
      d.StandsAt html doc parent previous? (places (id + d.listing.length) ds).head? id ∧
        AllMirror html doc id none (id + 1) d.children ∧
        AllMirror html doc parent (some id) (id + d.listing.length) ds := by
  rw [AllMirror, mirrors_iff, and_assoc]

theorem listings_singleton (d : Description) : listings [d] = d.listing := by
  rw [listings, listings, List.append_nil]

theorem length_listings_cons :
    (listings (d :: ds)).length = d.listing.length + (listings ds).length := by
  rw [listings, List.length_append]

theorem length_listing : d.listing.length = (listings d.children).length + 1 := by
  rw [listing_eq, List.length_cons]

theorem StandsAt.children_eq (stands : d.StandsAt html doc parent previous? next? id) :
    doc.children id = places (id + 1) d.children := by
  obtain ⟨content, -, found⟩ := stands
  rw [Document.children, found]
  rfl

theorem StandsAt.congr (stands : d.StandsAt html doc parent previous? next? id)
    (same : doc'.node? id = doc.node? id) : d.StandsAt html doc' parent previous? next? id := by
  obtain ⟨content, tells, found⟩ := stands
  exact ⟨content, tells, same.trans found⟩

/-- A mirror says something about its own nodes only. -/
theorem AllMirror.congr (mirror : AllMirror html doc parent previous? id ds)
    (same : ∀ i, id ≤ i → i < id + (listings ds).length → doc'.node? i = doc.node? i) :
    AllMirror html doc' parent previous? id ds := by
  induction ds using forest_induction generalizing parent previous? id with
  | nil => trivial
  | cons d ds inside behind =>
    obtain ⟨stands, below, others⟩ := allMirror_cons_iff.1 mirror
    rw [length_listings_cons, length_listing] at same
    refine allMirror_cons_iff.2 ⟨stands.congr (same id le_rfl (by omega)), ?_, ?_⟩
    · exact inside below fun i low high => same i (by omega) (by omega)
    · rw [length_listing] at others ⊢
      exact behind others fun i low high => same i (by omega) (by omega)

/-- The nodes of described siblings are those of the first one and those of the others. -/
theorem range'_listings_cons :
    List.range' id (listings (d :: ds)).length =
      id :: (List.range' (id + 1) (listings d.children).length ++
        List.range' (id + d.listing.length) (listings ds).length) := by
  rw [length_listings_cons, length_listing, Nat.add_right_comm, List.range'_succ,
    ← List.range'_append_1, Nat.add_assoc, Nat.add_comm 1]

/-- Below described nodes stand the described ones. -/
theorem AllMirror.listing (mirror : AllMirror html doc parent previous? id ds) :
    doc.Listing (places id ds) (List.range' id (listings ds).length) := by
  induction ds using forest_induction generalizing parent previous? id with
  | nil => exact .nil
  | cons d ds inside behind =>
    obtain ⟨stands, below, others⟩ := allMirror_cons_iff.1 mirror
    rw [range'_listings_cons]
    refine .cons ?_ (behind others)
    rw [stands.children_eq]
    exact inside below

/-- The described nodes are counted in pre-order. -/
theorem AllMirror.getElem? (mirror : AllMirror html doc parent previous? id ds)
    (found : (listings ds)[i]? = some node) :
    ∃ parent previous? next?, node.StandsAt html doc parent previous? next? (id + i) := by
  induction ds using forest_induction generalizing parent previous? id i with
  | nil => cases found
  | cons d ds inside behind =>
    obtain ⟨stands, below, others⟩ := allMirror_cons_iff.1 mirror
    rw [listings, List.getElem?_append] at found
    split at found
    · rw [listing_eq] at found
      cases i with
      | zero =>
        obtain rfl : d = node := Option.some.inj found
        exact ⟨_, _, _, stands⟩
      | succ i =>
        rw [Nat.add_comm i, ← Nat.add_assoc]
        exact inside below found
    · rename_i after
      have later := behind others found
      rw [Nat.add_assoc, Nat.add_sub_of_le (Nat.le_of_not_lt after)] at later
      exact later

end Mirror

/-! ## Outlines of descriptions -/

section Outlines

variable {html : Bool} {head : ElementHead} {inner ds : List Description} {d : Description}
  {outline : Outline} {outlines : List Outline}

theorem outline_element_eq_ok_iff :
    ((Description.element head inner).outline html).result = .ok outline ↔
      ∃ data below, head.data html = .ok data ∧ (Description.outlines html inner).result = .ok below ∧
        .element data below = outline := by
  rw [Description.outline]
  cases head.data html with
  | error fault => simp
  | ok data =>
    dsimp only
    rw [map_eq_ok_iff]
    simp

theorem outlines_cons_eq_ok_iff :
    (Description.outlines html (d :: ds)).result = .ok outlines ↔
      ∃ first others, (d.outline html).result = .ok first ∧
        (Description.outlines html ds).result = .ok others ∧ first :: others = outlines := by
  rw [Description.outlines]
  dsimp only
  cases (d.outline html).result with
  | error fault => simp
  | ok first =>
    dsimp only
    rw [map_eq_ok_iff]
    simp

/-- No name in the description of the node itself is broken. -/
def Sound : Description → Prop
  | .element head _ => head.Sound
  | _ => True

/-- Descriptions without a broken name have outlines. -/
theorem exists_outlines_eq_ok (sound : ∀ d ∈ listings ds, d.Sound) :
    ∃ outlines, (Description.outlines html ds).result = .ok outlines := by
  induction ds using forest_induction with
  | nil => exact ⟨[], rfl⟩
  | cons d ds inside behind =>
    rw [listings, listing_eq] at sound
    obtain ⟨here, soundOthers⟩ := List.forall_mem_append.1 sound
    obtain ⟨soundHead, soundInside⟩ := List.forall_mem_cons.1 here
    obtain ⟨others, placed⟩ := behind soundOthers
    obtain ⟨below, placedBelow⟩ := inside soundInside
    have first : ∃ first, (d.outline html).result = .ok first := by
      cases d with
      | text value => exact ⟨.text value, rfl⟩
      | comment value => exact ⟨.comment value, rfl⟩
      | element head inner =>
        obtain ⟨data, found⟩ := ElementHead.Sound.exists_data_eq_ok soundHead
        exact ⟨_, outline_element_eq_ok_iff.2 ⟨data, below, found, placedBelow, rfl⟩⟩
    obtain ⟨first, found⟩ := first
    exact ⟨_, outlines_cons_eq_ok_iff.2 ⟨first, others, found, placed, rfl⟩⟩

end Outlines

end Description

/-! ## What placing changes -/

namespace Document

/-- A node after new ones were placed behind the children of `parent`: that node gains children, and
the child that was the last one gains a neighbour. -/
def gaining (doc : Document) (parent : NodeId) (new : List NodeId) (id : NodeId) (node : Node) :
    Node :=
  { node with
    children := if id = parent then node.children ++ new else node.children
    next? := if (doc.children parent).getLast? = some id then new.head?.or node.next?
      else node.next? }

/-- Placing described nodes behind the children of `parent` made the second document of the first
one. -/
structure Growth (html : Bool) (doc doc' : Document) (parent : NodeId)
    (ds : List Description) : Prop where
  sameHtml : doc'.html = doc.html
  sameTransport : doc'.transportLanguage? = doc.transportLanguage?
  size : doc'.size = doc.size + (Description.listings ds).length
  old : ∀ id < doc.size, doc'.node? id =
    (doc.node? id).map (doc.gaining parent (Description.places doc.size ds) id)
  new : Description.AllMirror html doc' parent (doc.children parent).getLast? doc.size ds

section Growing

variable {html : Bool} {doc doc₁ doc' : Document} {parent id : Nat} {d : Description}
  {ds : List Description} {content : Content} {new : List NodeId} {node : Node}

/-- All but two nodes stay what they were. -/
theorem Growth.unchanged (growth : Growth html doc doc' parent ds) (old : id < doc.size)
    (notParent : id ≠ parent) (notLast : (doc.children parent).getLast? ≠ some id) :
    doc'.node? id = doc.node? id := by
  have same : doc.gaining parent (Description.places doc.size ds) id = fun node => node := by
    funext node
    rw [gaining, if_neg notParent, if_neg notLast]
  rw [growth.old id old, same, Option.map_id']

theorem node?_appendNew_of_lt (old : id < doc.size) :
    (doc.appendNew parent content).node? id =
      (doc.node? id).map (doc.gaining parent [doc.size] id) := by
  have apart : id ≠ doc.size := Nat.ne_of_lt old
  rw [appendNew, node?_append, node?_alloc, if_neg apart, (sameLinks_alloc doc content).children]
  congr 1
  funext node
  rw [gaining, if_neg apart, if_neg apart]
  rfl

theorem settings_append : (doc.append parent id).html = doc.html ∧
    (doc.append parent id).transportLanguage? = doc.transportLanguage? := by
  unfold append
  cases (doc.children parent).getLast? <;>
    simp only [forgetPragma, linkNeighbours, update, and_self]

theorem Growth.nil : Growth html doc doc parent [] where
  sameHtml := rfl
  sameTransport := rfl
  size := rfl
  old id _ := by
    have unchanged : doc.gaining parent [] id = fun node => node := by
      funext node
      rw [gaining, List.append_nil, ite_self, List.head?_nil, Option.none_or, ite_self]
    rw [Description.places, unchanged, Option.map_id']
  new := trivial

theorem Growth.size_single (growth : Growth html doc doc' parent [d]) :
    doc'.size = doc.size + d.listing.length := by
  rw [growth.size, Description.listings_singleton]

theorem Growth.getLast?_single (growth : Growth html doc doc' parent [d])
    (inside : parent < doc.size) : (doc'.children parent).getLast? = some doc.size := by
  obtain ⟨node, found⟩ := exists_node_of_lt inside
  have children : doc'.children parent = node.children ++ [doc.size] := by
    rw [Document.children, growth.old parent inside, found, Option.map_some, gaining, if_pos rfl]
    rfl
  rw [children, List.getLast?_concat]

/-- The others are placed behind the first one. -/
theorem Growth.cons (inside : parent < doc.size) (first : Growth html doc doc₁ parent [d])
    (others : Growth html doc₁ doc' parent ds) : Growth html doc doc' parent (d :: ds) := by
  have size := first.size_single
  have last := first.getLast?_single inside
  have pos : 0 < d.listing.length := by
    rw [Description.length_listing]
    exact Nat.succ_pos _
  constructor
  case sameHtml => exact others.sameHtml.trans first.sameHtml
  case sameTransport => exact others.sameTransport.trans first.sameTransport
  case size =>
    rw [others.size, size, Description.length_listings_cons, Nat.add_assoc]
  case old =>
    intro id old
    -- the last child is new now, so the second step gives no old node a neighbour
    have notLast : (doc₁.children parent).getLast? ≠ some id := by
      rw [last]
      exact fun same => Nat.ne_of_gt old (Option.some.inj same)
    rw [others.old id (by omega), first.old id old, Option.map_map, Description.places,
      Description.places, Description.places, ← size]
    congr 1
    funext node
    rw [Function.comp_apply, gaining, gaining, gaining, if_neg notLast]
    by_cases isParent : id = parent
    · rw [if_pos isParent, if_pos isParent, if_pos isParent, List.append_assoc]
      rfl
    · rw [if_neg isParent, if_neg isParent, if_neg isParent]
      rfl
  case new =>
    -- the first sibling gains its neighbour, and the nodes below it are not touched
    obtain ⟨⟨content, tells, found⟩, below, -⟩ := Description.allMirror_cons_iff.1 first.new
    have notParent : doc.size ≠ parent := Nat.ne_of_gt inside
    refine Description.allMirror_cons_iff.2 ⟨⟨content, tells, ?_⟩, below.congr ?_, ?_⟩
    · rw [others.old doc.size (by omega), found, Option.map_some, gaining, if_neg notParent,
        if_pos last, size]
      have alone : (Description.places (doc.size + d.listing.length) []).head? = none := rfl
      rw [alone, Option.or_none]
    · intro i low high
      refine others.unchanged ?_ ?_ ?_
      · rw [size, Description.length_listing]
        omega
      · omega
      · rw [last]
        exact fun same => absurd (Option.some.inj same) (by omega)
    · have mirror := others.new
      rw [last, size] at mirror
      exact mirror

variable (inside : parent < doc.size)
  (lastInside : ∀ last, (doc.children parent).getLast? = some last → last < doc.size)
include inside lastInside

theorem node?_appendNew_size :
    (doc.appendNew parent content).node? doc.size =
      some { content := content, parent? := some parent
             previous? := (doc.children parent).getLast? } := by
  have notParent : doc.size ≠ parent := Nat.ne_of_gt inside
  have notLast : (doc.children parent).getLast? ≠ some doc.size := fun last =>
    Nat.lt_irrefl _ (lastInside _ last)
  rw [appendNew, node?_append, node?_alloc, if_pos rfl, (sameLinks_alloc doc content).children,
    Option.map_some, if_pos rfl, if_neg notParent, if_neg notLast, if_pos rfl, Option.or_none]

theorem children_appendNew_size : (doc.appendNew parent content).children doc.size = [] := by
  rw [Document.children, node?_appendNew_size inside lastInside]
  rfl

/-- A node is appended first, and then what is below it. -/
theorem Growth.single (tells : d.Tells html content)
    (below : Growth html (doc.appendNew parent content) doc' doc.size d.children) :
    Growth html doc doc' parent [d] := by
  obtain ⟨sameHtml, sameTransport⟩ := @settings_append (doc.alloc content) parent doc.size
  have size : (doc.appendNew parent content).size = doc.size + 1 := size_appendNew content
  have new := @node?_appendNew_size doc parent content inside lastInside
  have leaf := @children_appendNew_size doc parent content inside lastInside
  have notLast (id : NodeId) :
      ((doc.appendNew parent content).children doc.size).getLast? ≠ some id := by
    rw [leaf]
    intro last
    cases last
  constructor
  case sameHtml => exact below.sameHtml.trans sameHtml
  case sameTransport => exact below.sameTransport.trans sameTransport
  case size =>
    rw [below.size, size, Description.listings_singleton, Description.length_listing]
    omega
  case old =>
    intro id old
    rw [below.unchanged (by omega) (Nat.ne_of_lt old) (notLast id), node?_appendNew_of_lt old]
    rfl
  case new =>
    refine Description.allMirror_cons_iff.2 ⟨⟨content, tells, ?_⟩, ?_, trivial⟩
    · rw [below.old doc.size (by omega), new, size, Option.map_some, gaining, if_pos rfl,
        if_neg (notLast _)]
      rfl
    · have mirror := below.new
      rw [leaf, size] at mirror
      exact mirror

end Growing

end Document

/-! ## Loading -/

section Loading

variable {html : Bool} {doc : Document} {parent : Nat} {ds : List Description}
  {outlines : List Outline}

/-- Placing the outlines of described siblings makes the document grow by these. -/
theorem growth_placeAll (drawn : (Description.outlines html ds).result = .ok outlines)
    (inside : parent < doc.size)
    (lastInside : ∀ last, (doc.children parent).getLast? = some last → last < doc.size) :
    Document.Growth html doc (Outline.placeAll parent outlines doc) parent ds := by
  induction ds using Description.forest_induction generalizing doc parent outlines with
  | nil =>
    cases drawn
    exact .nil
  | cons d ds below behind =>
    obtain ⟨outline, others, first, drawnOthers, rfl⟩ :=
      Description.outlines_cons_eq_ok_iff.1 drawn
    have growth : Document.Growth html doc (outline.place parent doc) parent [d] := by
      cases d with
      | text value =>
        obtain rfl := Except.ok.inj first
        exact .single inside lastInside (.text value) .nil
      | comment value =>
        obtain rfl := Except.ok.inj first
        exact .single inside lastInside (.comment value) .nil
      | element head inner =>
        obtain ⟨data, drawnInner, found, drawnBelow, rfl⟩ :=
          Description.outline_element_eq_ok_iff.1 first
        have tells := Description.Tells.element inner (ElementHead.describes_of_data_eq_ok found)
        have leaf := @Document.children_appendNew_size doc parent (.element data) inside lastInside
        refine .single inside lastInside tells (below drawnBelow ?_ fun last found => ?_)
        · rw [Document.size_appendNew]
          exact Nat.lt_succ_self _
        · rw [leaf] at found
          cases found
    have size := growth.size_single
    rw [Description.length_listing] at size
    refine .cons inside growth (behind drawnOthers (by omega) fun last found => ?_)
    rw [growth.getLast?_single inside] at found
    rw [size, ← Option.some.inj found]
    exact Nat.lt_add_of_pos_right (Nat.succ_pos _)

end Loading

namespace Document

/-- The document is the described one. Its nodes are the document node and the described nodes,
which are counted in pre-order. Each one has its content, and the links say how they are nested. -/
structure Keeps (doc : Document) (options : LoadOptions) (description : Description) : Prop where
  html : doc.html = options.html
  transportLanguage? : doc.transportLanguage? = options.transportLanguage?
  size : doc.size = 1 + description.listing.length
  root : doc.node? root = some { content := .document, children := [1] }
  order : ∀ (i : Nat) (node : Description), description.listing[i]? = some node → ∃ parent previous? next?,
    node.StandsAt options.html doc parent previous? next? (1 + i)
  nesting : description.Mirrors options.html doc Document.root none none 1
  descendants : doc.descendants Document.root = List.range' 1 description.listing.length

theorem keeps_ofOutline {options : LoadOptions} {description : Description} {top : Outline}
    (drawn : (description.outline options.html).result = .ok top) :
    (ofOutline options top).Keeps options description := by
  have drawnAlone : (Description.outlines options.html [description]).result = .ok [top] :=
    Description.outlines_cons_eq_ok_iff.2 ⟨top, [], drawn, rfl, rfl⟩
  have growth : Growth options.html
      ((empty options.html).setTransportLanguage options.transportLanguage?) (ofOutline options top)
      root [description] :=
    growth_placeAll drawnAlone Nat.zero_lt_one fun last found => by cases found
  have linked := linked_ofOutline options top
  have atRoot := growth.old root Nat.zero_lt_one
  have children : (ofOutline options top).children root = [1] := by
    rw [Document.children, atRoot]
    rfl
  have listing := growth.new.listing
  have descendants := listing_descendants linked.closed linked.loopless root
  constructor
  case html => exact growth.sameHtml
  case transportLanguage? => exact growth.sameTransport
  case size => exact growth.size_single
  case root => exact atRoot
  case order =>
    intro i node found
    rw [← Description.listings_singleton] at found
    exact growth.new.getElem? found
  case nesting => exact growth.new.1
  case descendants =>
    rw [children] at descendants
    rw [Description.listings_singleton] at listing
    exact descendants.unique listing

/-- **Loading keeps the whole document.** An element that is described without a broken name is
loaded, and the document is what the description says. -/
theorem exists_keeps_of_sound (options : LoadOptions) {head : ElementHead}
    {inner : List Description} (sound : ∀ d ∈ (Description.element head inner).listing, d.Sound) :
    ∃ doc, (ofDescription options (.element head inner)).1 = .ok doc ∧
      doc.Keeps options (.element head inner) := by
  rw [← Description.listings_singleton] at sound
  obtain ⟨outlines, drawn⟩ := @Description.exists_outlines_eq_ok options.html _ sound
  obtain ⟨top, _, drawnTop, _, rfl⟩ := Description.outlines_cons_eq_ok_iff.1 drawn
  refine ⟨ofOutline options top, ?_, keeps_ofOutline drawnTop⟩
  rw [ofDescription, drawnTop]

/-- A paragraph that gives its attribute `a` twice, with a text, an element around a comment, and
another text. -/
def paragraph : Description :=
  .element ⟨"p", none, [("\x7b\x7da", "late"), ("a", "early")], []⟩
    [.text "t", .element ⟨"\x7bu\x7db", none, [], []⟩ [.comment "c"], .text "end"]

/-- The last text is the neighbour of the element, whose comment was counted before it. The key with
the brace is greater, so its value counts, although it was written first. -/
theorem exists_keeps_paragraph :
    (∀ d ∈ paragraph.listing, d.Sound) ∧
      ∃ doc, (ofDescription { html := true } paragraph).1 = .ok doc ∧
        doc.descendants root = [1, 2, 3, 4, 5] ∧ doc.next? 3 = some 5 ∧ doc.parent? 4 = some 3 ∧
        ∃ data, doc.elementData? 1 = some data ∧ data.getAttribute? "" "a" = some "late" := by
  have late : Denotes "\x7b\x7da" "" "a" := .qualified (by decide) (by decide) (by decide)
  have early : Denotes "a" "" "a" := .plain (by decide)
  have qualified : Denotes "\x7bu\x7db" "u" "b" :=
    .qualified (by decide) (by decide) (by decide)
  have keys : ∀ entry ∈ [("\x7b\x7da", "late"), ("a", "early")], IsName entry.1 :=
    List.forall_mem_cons.2 ⟨⟨_, _, late⟩, List.forall_mem_singleton.2 ⟨_, _, early⟩⟩
  have sound : ∀ d ∈ paragraph.listing, d.Sound := by
    have outer : ElementHead.Sound ⟨"p", none, [("\x7b\x7da", "late"), ("a", "early")], []⟩ :=
      ⟨⟨_, _, .plain (by decide)⟩, keys⟩
    have inner : ElementHead.Sound ⟨"\x7bu\x7db", none, [], []⟩ :=
      ⟨⟨_, _, qualified⟩, List.forall_mem_nil _⟩
    simp only [paragraph, Description.listing, Description.listings, List.forall_mem_cons,
      List.append_nil, List.cons_append, List.nil_append]
    exact ⟨outer, trivial, inner, trivial, trivial, List.forall_mem_nil _⟩
  obtain ⟨doc, loaded, keeps⟩ := exists_keeps_of_sound { html := true } sound
  refine ⟨sound, doc, loaded, keeps.descendants, ?_, ?_, ?_⟩
  · obtain ⟨-, -, ⟨⟨_, _, element⟩, _⟩, -⟩ := keeps.nesting
    exact congrArg (Option.bind · Node.next?) element
  · obtain ⟨-, -, ⟨-, ⟨_, _, comment⟩, -⟩, -⟩ := keeps.nesting
    exact congrArg (Option.bind · Node.parent?) comment
  · obtain ⟨⟨_, tells, found⟩, -⟩ := keeps.nesting
    cases tells with
    | @element _ data _ describes =>
      refine ⟨data, ?_, ?_⟩
      · rw [elementData?, found]
      · refine (describes.attributes ..).2 ⟨_, rfl, late, ?_⟩
        intro other given _
        have written : other = "a" ∨ other = "\x7b\x7da" := by
          by_contra neither
          obtain ⟨notEarly, notLate⟩ := not_or.1 neither
          exact given (by simp [ElementHead.attribute?, lookup_cons_ite, notEarly, notLate])
        rcases written with rfl | rfl
        · exact bytes_le_iff.2 (by decide)
        · exact List.le_refl _

end Document

end Selectors
