import Selectors.Proofs.Loading
import Selectors.Proofs.Remembering
import Selectors.Proofs.Resemblance

/-!
Texts and comments are invisible. A description without its texts and comments
(`Description.withoutText`) makes another document: the nodes are counted differently and their links
lead elsewhere. But the elements of the two documents correspond in their order, and a selector that
does not ask for content matches one of them exactly if it matches the other one
(`accepts_iff_without_text`).

Elements correspond if they stand at the same places on the way down from the top (`Twins`). By
induction on that way they come from one description (`Elided.matched`), and so do their children,
pair by pair. The language of an element is found on the way up, and at the top the pragmas in the
two documents are the same ones in the same order (`Elided.forall₂_elements`).
-/

namespace Selectors

/-! ## Descriptions without texts and comments -/

namespace Description

/-- An element is described, neither a text nor a comment. -/
def isElement : Description → Bool
  | .element _ _ => true
  | _ => false

mutual

/-- A description without the texts and comments at any depth below the node itself. -/
def withoutText : Description → Description
  | .element head children => .element head (elementsOf children)
  | node => node

/-- The elements among described siblings, without the texts and comments at any depth. -/
def elementsOf : List Description → List Description
  | [] => []
  | node :: rest => if node.isElement then node.withoutText :: elementsOf rest else elementsOf rest

end

variable {html : Bool} {head : ElementHead} {inner ds : List Description} {outlines : List Outline}

theorem elementsOf_cons_element : elementsOf (.element head inner :: ds) =
    .element head (elementsOf inner) :: elementsOf ds := rfl

/-- What is left of a description has no name that was not there before. -/
theorem exists_outlines_elementsOf (drawn : (Description.outlines html ds).result = .ok outlines) :
    ∃ left, (Description.outlines html (elementsOf ds)).result = .ok left := by
  induction ds using forest_induction generalizing outlines with
  | nil => exact ⟨[], rfl⟩
  | cons d ds inside behind =>
    obtain ⟨first, others, drawnFirst, drawnOthers, -⟩ := outlines_cons_eq_ok_iff.1 drawn
    obtain ⟨left, drawnLeft⟩ := behind drawnOthers
    cases d with
    | text | comment => exact ⟨left, drawnLeft⟩
    | element head inner =>
      obtain ⟨data, below, found, drawnBelow, -⟩ := outline_element_eq_ok_iff.1 drawnFirst
      obtain ⟨leftBelow, drawnLeftBelow⟩ := inside drawnBelow
      have drawnHere := outline_element_eq_ok_iff.2 ⟨data, leftBelow, found, drawnLeftBelow, rfl⟩
      exact ⟨_, outlines_cons_eq_ok_iff.2 ⟨_, left, drawnHere, drawnLeft, rfl⟩⟩

end Description

/-! ## One description in two documents -/

/-- An element belongs to no other namespace than the one that is looked up. -/
theorem BelongsTo.eq_elementNamespace? {html : Bool} {given url? : Option String} {written : String}
    (belongs : BelongsTo html given written url?) : url? = elementNamespace? html given written := by
  unfold elementNamespace?
  cases belongs <;> simp [*, htmlNamespace]

namespace Document

open Description

variable {html : Bool} {doc doc' : Document} {head : ElementHead} {inner ds : List Description}
  {d : Description} {e e' p p' : Element} {parent parent' id id' : Nat}
  {previous? previous?' next? : Option NodeId}

/-- An element of the document is the described one, and the nodes below it are the described
ones. -/
structure Pictures (html : Bool) (doc : Document) (head : ElementHead) (inner : List Description)
    (e : Element) : Prop where
  here : doc.Has e
  data : head.Describes html e.data
  children : doc.children e.id = places (e.id + 1) inner
  below : AllMirror html doc e.id none (e.id + 1) inner

/-- Two elements come from one description, of which the second document lacks the texts and
comments. -/
def Matched (html : Bool) (doc doc' : Document) (e e' : Element) : Prop :=
  ∃ head inner, Pictures html doc head inner e ∧ Pictures html doc' head (elementsOf inner) e'

theorem element?_of_standsAt (stands : d.StandsAt html doc parent previous? next? id)
    (other : d.isElement = false) : doc.element? id = none := by
  obtain ⟨content, tells, found⟩ := stands
  have noData : doc.elementData? id = none := by
    unfold elementData?
    rw [found]
    cases tells with
    | text | comment => rfl
    | element => cases other
  rw [element?, noData]
  rfl

theorem exists_pictures
    (stands : (Description.element head inner).StandsAt html doc parent previous? next? id)
    (below : AllMirror html doc id none (id + 1) inner) :
    ∃ e, doc.element? id = some e ∧ e.id = id ∧ Pictures html doc head inner e := by
  have children := stands.children_eq
  obtain ⟨content, tells, found⟩ := stands
  cases tells with
  | @element _ data _ describes =>
    have here : doc.Has ⟨id, data⟩ := by
      rw [Has, found]
      rfl
    exact ⟨⟨id, data⟩, here.element?, rfl, here, describes, children, below⟩

theorem Pictures.alike (one : Pictures html doc head inner e)
    {others : List Description} (other : Pictures html doc' head others e') :
    e.data.Alike e'.data := by
  obtain ⟨url, denotes, belongs⟩ := one.data.name
  obtain ⟨url', denotes', belongs'⟩ := other.data.name
  obtain ⟨rfl, sameName⟩ := denotes.unique denotes'
  constructor
  case name => exact sameName
  case namespaceUrl? => exact belongs.eq_elementNamespace?.trans belongs'.eq_elementNamespace?.symm
  case attributes =>
    intro url name
    refine Option.ext fun value => ?_
    rw [one.data.attributes, other.data.attributes]

theorem Matched.alike (matched : Matched html doc doc' e e') : e.data.Alike e'.data := by
  obtain ⟨head, inner, one, other⟩ := matched
  exact one.alike other

/-- Described siblings give pairs of elements that come from one description. -/
theorem forall₂_matched (mirror : AllMirror html doc parent previous? id ds)
    (mirror' : AllMirror html doc' parent' previous?' id' (elementsOf ds)) :
    List.Forall₂ (Matched html doc doc') ((places id ds).filterMap doc.element?)
      ((places id' (elementsOf ds)).filterMap doc'.element?) := by
  induction ds generalizing previous? id previous?' id' with
  | nil => exact .nil
  | cons d ds ih =>
    obtain ⟨stands, below, others⟩ := allMirror_cons_iff.1 mirror
    rw [places]
    cases d with
    | text | comment =>
      rw [List.filterMap_cons_none (element?_of_standsAt stands rfl)]
      exact ih others mirror'
    | element head inner =>
      obtain ⟨stands', below', others'⟩ := allMirror_cons_iff.1 mirror'
      obtain ⟨e, found, -, pictures⟩ := exists_pictures stands below
      obtain ⟨e', found', -, pictures'⟩ := exists_pictures stands' below'
      rw [elementsOf_cons_element, places, List.filterMap_cons_some found,
        List.filterMap_cons_some found']
      exact .cons ⟨head, inner, pictures, pictures'⟩ (ih others others')

/-! ## Elements at one place -/

/-- The elements among the children of the document node. -/
def topElements (doc : Document) : List Element := (doc.children root).filterMap doc.element?

/-- Two elements stand at one place: counting elements alone, the same way leads down to them. -/
inductive Twins (doc doc' : Document) : Element → Element → Prop
  | top {e e' : Element} : (e, e') ∈ doc.topElements.zip doc'.topElements → Twins doc doc' e e'
  | deeper {p p' e e' : Element} : Twins doc doc' p p' →
    (e, e') ∈ (doc.childElements p).zip (doc'.childElements p') → Twins doc doc' e e'

/-- The first document is the described one, and the second one lacks the texts and comments. -/
structure Elided (options : LoadOptions) (head : ElementHead) (inner : List Description)
    (doc doc' : Document) : Prop where
  keeps : doc.Keeps options (.element head inner)
  keeps' : doc'.Keeps options (.element head (elementsOf inner))
  linked : doc.Linked
  linked' : doc'.Linked
  pragma?_eq_none : doc.pragma? = none
  pragma?_eq_none' : doc'.pragma? = none

theorem Keeps.children_root {options : LoadOptions} (keeps : doc.Keeps options d) :
    doc.children Document.root = places 1 [d] := by
  rw [Document.children, keeps.root]
  rfl

theorem Keeps.element?_root {options : LoadOptions} (keeps : doc.Keeps options d) :
    doc.element? Document.root = none := by
  rw [element?, elementData?, keeps.root]
  rfl

theorem Linked.parent?_eq_some (linked : doc.Linked)
    (member : e ∈ (doc.children id).filterMap doc.element?) : doc.parent? e.id = some id :=
  (linked.mem_children_iff id e.id).1 (mem_filterMap_element?.1 member).1

namespace Elided

variable {options : LoadOptions} (elided : Elided options head inner doc doc')
include elided

theorem forall₂_matched_topElements :
    List.Forall₂ (Matched options.html doc doc') doc.topElements doc'.topElements := by
  have mirror : AllMirror options.html doc root none 1 [.element head inner] :=
    ⟨elided.keeps.nesting, trivial⟩
  have mirror' : AllMirror options.html doc' root none 1 (elementsOf [.element head inner]) :=
    ⟨elided.keeps'.nesting, trivial⟩
  have matched := forall₂_matched mirror mirror'
  rw [← elided.keeps.children_root] at matched
  rw [topElements, topElements, elided.keeps'.children_root]
  exact matched

/-- Elements at one place come from one description. -/
theorem matched (twins : Twins doc doc' e e') : Matched options.html doc doc' e e' := by
  induction twins with
  | top pair => exact List.forall₂_zip elided.forall₂_matched_topElements pair
  | deeper _ pair ih =>
    obtain ⟨_, _, above, above'⟩ := ih
    rw [childElements, childElements, above.children, above'.children] at pair
    exact List.forall₂_zip (forall₂_matched above.below above'.below) pair

theorem forall₂_topElements :
    List.Forall₂ (Twins doc doc') doc.topElements doc'.topElements :=
  List.forall₂_iff_zip.2 ⟨elided.forall₂_matched_topElements.length_eq, .top⟩

/-- The children of elements at one place are at one place again, pair by pair. -/
theorem forall₂_childElements (twins : Twins doc doc' e e') :
    List.Forall₂ (Twins doc doc') (doc.childElements e) (doc'.childElements e') := by
  obtain ⟨_, _, above, above'⟩ := elided.matched twins
  have length := (forall₂_matched above.below above'.below).length_eq
  rw [← above.children, ← above'.children] at length
  exact List.forall₂_iff_zip.2 ⟨length, .deeper twins⟩

/-! ## What stands around an element -/

theorem parentElement?_top (pair : (e, e') ∈ doc.topElements.zip doc'.topElements) :
    doc.parentElement? e = none ∧ doc'.parentElement? e' = none := by
  obtain ⟨member, member'⟩ := List.of_mem_zip pair
  rw [parentElement?, parentElement?, elided.linked.parent?_eq_some member,
    elided.linked'.parent?_eq_some member']
  exact ⟨elided.keeps.element?_root, elided.keeps'.element?_root⟩

theorem parentElement?_deeper (above : Twins doc doc' p p')
    (pair : (e, e') ∈ (doc.childElements p).zip (doc'.childElements p')) :
    doc.parentElement? e = some p ∧ doc'.parentElement? e' = some p' := by
  obtain ⟨member, member'⟩ := List.of_mem_zip pair
  obtain ⟨_, _, one, other⟩ := elided.matched above
  exact ⟨parentElement?_eq_some_iff.2 ⟨elided.linked.parent?_eq_some member, one.here⟩,
    parentElement?_eq_some_iff.2 ⟨elided.linked'.parent?_eq_some member', other.here⟩⟩

theorem rel_parentElement? (twins : Twins doc doc' e e') :
    Option.Rel (Twins doc doc') (doc.parentElement? e) (doc'.parentElement? e') := by
  cases twins with
  | top pair =>
    obtain ⟨alone, alone'⟩ := elided.parentElement?_top pair
    rw [alone, alone']
    exact .none
  | deeper above pair =>
    obtain ⟨found, found'⟩ := elided.parentElement?_deeper above pair
    rw [found, found']
    exact .some above

theorem forall₂_ancestorElements (twins : Twins doc doc' e e') :
    List.Forall₂ (Twins doc doc') (doc.ancestorElements e) (doc'.ancestorElements e') := by
  have step := ancestorElements_eq elided.linked.acyclic elided.linked.parent_lt
  have step' := ancestorElements_eq elided.linked'.acyclic elided.linked'.parent_lt
  induction twins with
  | top pair =>
    obtain ⟨alone, alone'⟩ := elided.parentElement?_top pair
    rw [step, step', alone, alone']
    exact .nil
  | deeper above pair ih =>
    obtain ⟨found, found'⟩ := elided.parentElement?_deeper above pair
    rw [step, step', found, found']
    exact .cons above ih

/-- The siblings of elements at one place are at one place pair by pair, and so are the elements
among them that make up a pair. -/
theorem forall₂_siblings (twins : Twins doc doc' e e') :
    List.Forall₂ (Twins doc doc') (doc.siblings e) (doc'.siblings e') ∧
      (e, e') ∈ (doc.siblings e).zip (doc'.siblings e') := by
  cases twins with
  | top pair =>
    obtain ⟨member, member'⟩ := List.of_mem_zip pair
    rw [elided.linked.siblings_eq (elided.linked.parent?_eq_some member),
      elided.linked'.siblings_eq (elided.linked'.parent?_eq_some member')]
    exact ⟨elided.forall₂_topElements, pair⟩
  | deeper above pair =>
    obtain ⟨member, member'⟩ := List.of_mem_zip pair
    rw [elided.linked.siblings_eq (elided.linked.parent?_eq_some member),
      elided.linked'.siblings_eq (elided.linked'.parent?_eq_some member')]
    exact ⟨elided.forall₂_childElements above, pair⟩

theorem siblingIndex_eq_and_preceding (twins : Twins doc doc' e e') :
    doc.siblingIndex e = doc'.siblingIndex e' ∧
      List.Forall₂ (Twins doc doc') (doc.precedingElements e) (doc'.precedingElements e') := by
  obtain ⟨_, _, one, other⟩ := elided.matched twins
  obtain ⟨siblings, pair⟩ := elided.forall₂_siblings twins
  obtain ⟨i, -, place, index, preceding⟩ := elided.linked.exists_place one.here
  obtain ⟨i', -, place', index', preceding'⟩ := elided.linked'.exists_place other.here
  obtain ⟨j, found⟩ := List.mem_iff_getElem?.1 pair
  obtain ⟨atPlace, atPlace'⟩ := List.getElem?_zip_eq_some.1 found
  obtain rfl : j = i := (place j).1 atPlace
  obtain rfl : j = i' := (place' j).1 atPlace'
  rw [index, index', preceding, preceding']
  exact ⟨rfl, List.forall₂_reverse_iff.2 (List.forall₂_take j siblings)⟩

/-! ## Document order -/

/-- Below described siblings the elements of the two documents correspond in their order. -/
theorem forall₂_listings (mirror : AllMirror options.html doc parent previous? id ds)
    (mirror' : AllMirror options.html doc' parent' previous?' id' (elementsOf ds))
    (tops : List.Forall₂ (Twins doc doc') ((places id ds).filterMap doc.element?)
      ((places id' (elementsOf ds)).filterMap doc'.element?)) :
    List.Forall₂ (Twins doc doc')
      ((List.range' id (listings ds).length).filterMap doc.element?)
      ((List.range' id' (listings (elementsOf ds)).length).filterMap doc'.element?) := by
  induction ds using forest_induction
    generalizing parent previous? id parent' previous?' id' with
  | nil => exact .nil
  | cons d ds inside behind =>
    obtain ⟨stands, below, others⟩ := allMirror_cons_iff.1 mirror
    rw [places] at tops
    cases d with
    | text | comment =>
      have none := element?_of_standsAt stands rfl
      rw [List.filterMap_cons_none none] at tops
      rw [range'_listings_cons, List.filterMap_cons_none none]
      exact behind others mirror' tops
    | element head inner =>
      obtain ⟨stands', below', others'⟩ := allMirror_cons_iff.1 mirror'
      obtain ⟨e, found, rfl, pictures⟩ := exists_pictures stands below
      obtain ⟨e', found', rfl, pictures'⟩ := exists_pictures stands' below'
      rw [elementsOf_cons_element, places, List.filterMap_cons_some found,
        List.filterMap_cons_some found', List.forall₂_cons] at tops
      obtain ⟨twins, topsBehind⟩ := tops
      have children := elided.forall₂_childElements twins
      rw [childElements, childElements, pictures.children, pictures'.children] at children
      rw [elementsOf_cons_element, range'_listings_cons, range'_listings_cons,
        List.filterMap_cons_some found, List.filterMap_cons_some found', List.filterMap_append,
        List.filterMap_append]
      exact .cons twins (List.rel_append (inside below below' children)
        (behind others others' topsBehind))

/-- **The elements of the two documents correspond in their order.** -/
theorem forall₂_elements : List.Forall₂ (Twins doc doc') doc.elements doc'.elements := by
  have tops := elided.forall₂_topElements
  rw [topElements, topElements, elided.keeps.children_root, elided.keeps'.children_root] at tops
  have mirror : AllMirror options.html doc root none 1 [.element head inner] :=
    ⟨elided.keeps.nesting, trivial⟩
  have mirror' : AllMirror options.html doc' root none 1 (elementsOf [.element head inner]) :=
    ⟨elided.keeps'.nesting, trivial⟩
  have all := elided.forall₂_listings mirror mirror' tops
  rw [elementsOf_cons_element, elementsOf, listings_singleton, listings_singleton,
    ← elided.keeps.descendants, ← elided.keeps'.descendants] at all
  exact all

end Elided

/-- Below the element at the top are all elements. -/
theorem Keeps.subtree_eq_elements {options : LoadOptions} (keeps : doc.Keeps options d)
    (linked : doc.Linked) (member : e ∈ doc.topElements) : doc.subtree e = doc.elements := by
  rw [topElements, keeps.children_root] at member
  obtain ⟨isTop, here⟩ := mem_filterMap_element?.1 member
  have listing := listing_descendants linked.closed linked.loopless
  have atTop := listing Document.root
  rw [keeps.children_root, ← List.mem_singleton.1 isTop] at atTop
  have same := atTop.unique (.cons (listing e.id) .nil)
  rw [elements, same, List.append_nil, List.filterMap_cons_some here.element?]
  rfl

/-- Pragmas in the same order set the same language. -/
theorem pragmaLanguage?_eq_of_forall₂
    (alike : List.Forall₂ (fun f f' => f.data.Alike f'.data) (doc.subtree e) (doc'.subtree e')) :
    doc.pragmaLanguage? e = doc'.pragmaLanguage? e' := by
  have same : Relator.LiftFun (fun f f' : Element => f.data.Alike f'.data) Iff
      (fun f => isLanguagePragma f = true) (fun f => isLanguagePragma f = true) := by
    intro f f' alike
    dsimp only
    rw [isLanguagePragma, isLanguagePragma, ElementData.isHtml, ElementData.isHtml, alike.name,
      alike.namespaceUrl?, alike.attributes]
  have pragmas := List.forall₂_reverse_iff.2 (List.rel_filter same alike)
  have last := rel_head? pragmas
  rw [List.head?_reverse, List.head?_reverse] at last
  unfold pragmaLanguage?
  generalize ((doc.subtree e).filter isLanguagePragma).getLast? = pragma? at last ⊢
  generalize ((doc'.subtree e').filter isLanguagePragma).getLast? = pragma?' at last ⊢
  cases last with
  | some alike => exact congrArg (Option.bind · contentLanguage?) (alike.attributes ..)
  | none => rfl

namespace Elided

variable {options : LoadOptions} (elided : Elided options head inner doc doc')
include elided

theorem honorsHtml_eq (alike : e.data.Alike e'.data) : doc.honorsHtml e = doc'.honorsHtml e' := by
  rw [honorsHtml, honorsHtml, ElementData.isHtml, ElementData.isHtml, alike.namespaceUrl?,
    elided.keeps.html, elided.keeps'.html]

theorem declaredLanguage?_eq (alike : e.data.Alike e'.data) :
    doc.declaredLanguage? e = doc'.declaredLanguage? e' := by
  unfold declaredLanguage?
  rw [elided.honorsHtml_eq alike, alike.attributes, alike.attributes]

/-- At the top the same pragmas are found in the same order. -/
theorem pragmaLanguage?_eq (pair : (e, e') ∈ doc.topElements.zip doc'.topElements) :
    doc.pragmaLanguage? e = doc'.pragmaLanguage? e' := by
  obtain ⟨member, member'⟩ := List.of_mem_zip pair
  apply pragmaLanguage?_eq_of_forall₂
  rw [elided.keeps.subtree_eq_elements elided.linked member,
    elided.keeps'.subtree_eq_elements elided.linked' member']
  exact elided.forall₂_elements.imp fun f f' twins => (elided.matched twins).alike

theorem language?_eq (twins : Twins doc doc' e e') : doc.language? e = doc'.language? e' := by
  have step := Document.language?_eq elided.linked.closed elided.linked.loopless
  have step' := Document.language?_eq elided.linked'.closed elided.linked'.loopless
  have truthful := truthful_of_pragma?_eq_none elided.pragma?_eq_none
  have truthful' := truthful_of_pragma?_eq_none elided.pragma?_eq_none'
  induction twins with
  | @top e e' pair =>
    have matched := elided.matched (.top pair)
    obtain ⟨alone, alone'⟩ := elided.parentElement?_top pair
    obtain ⟨_, _, one, other⟩ := elided.matched (.top pair)
    have fallback : doc.fallbackLanguage? e = doc'.fallbackLanguage? e' := by
      rw [fallbackLanguage?_eq truthful one.here, fallbackLanguage?_eq truthful' other.here,
        elided.honorsHtml_eq matched.alike, elided.pragmaLanguage?_eq pair,
        elided.keeps.transportLanguage?, elided.keeps'.transportLanguage?]
    rw [step, step', elided.declaredLanguage?_eq matched.alike, alone, alone', Option.elim_none,
      Option.elim_none, fallback]
  | @deeper p p' e e' above pair ih =>
    have matched := elided.matched (.deeper above pair)
    obtain ⟨found, found'⟩ := elided.parentElement?_deeper above pair
    rw [step, step', elided.declaredLanguage?_eq matched.alike, found, found', Option.elim_some,
      Option.elim_some, ih]

theorem resemblance : Resemblance doc doc' (Twins doc doc') where
  data twins := (elided.matched twins).alike
  parent := elided.rel_parentElement?
  ancestors := elided.forall₂_ancestorElements
  siblings twins := (elided.forall₂_siblings twins).1
  preceding twins := (elided.siblingIndex_eq_and_preceding twins).2
  index twins := (elided.siblingIndex_eq_and_preceding twins).1
  language := elided.language?_eq

end Elided

/-! ## Loading both documents -/

/-- An element that is described can be loaded if and only if its names can be taken apart. -/
theorem ofDescription_element_eq_ok_iff {options : LoadOptions} :
    (ofDescription options (.element head inner)).1 = .ok doc ↔
      ∃ top, ((Description.element head inner).outline options.html).result = .ok top ∧
        ofOutline options top = doc := by
  rw [ofDescription]
  dsimp only
  cases ((Description.element head inner).outline options.html).result with
  | error fault => simp
  | ok top => simp

/-- **Texts and comments are invisible to matching.** A description that can be loaded can be loaded
without its texts and comments. The elements of the two documents are as many, and a selector
without `:empty` matches an element of the one document exactly if it matches the element of the
other one that is as far down in document order. -/
theorem accepts_iff_without_text {options : LoadOptions} {description : Description}
    (loaded : (ofDescription options description).1 = .ok doc) :
    ∃ bare, (ofDescription options description.withoutText).1 = .ok bare ∧
      bare.elements.length = doc.elements.length ∧
      ∀ (s : Selector) (c : Compiled), s.compile = .ok c → s.chain.IgnoresContent →
        ∀ (k : Nat) (e e' : Element), doc.elements[k]? = some e → bare.elements[k]? = some e' →
          (c.accepts doc e = true ↔ c.accepts bare e' = true) := by
  cases description with
  | text | comment => cases loaded
  | element head inner =>
    obtain ⟨top, drawn, rfl⟩ := ofDescription_element_eq_ok_iff.1 loaded
    have drawnAlone : (outlines options.html [.element head inner]).result = .ok [top] :=
      outlines_cons_eq_ok_iff.2 ⟨top, [], drawn, rfl, rfl⟩
    obtain ⟨left, drawnLeft⟩ := exists_outlines_elementsOf drawnAlone
    obtain ⟨bareTop, _, drawnBare, _, _⟩ := outlines_cons_eq_ok_iff.1 drawnLeft
    have elided : Elided options head inner (ofOutline options top) (ofOutline options bareTop) :=
      ⟨keeps_ofOutline drawn, keeps_ofOutline drawnBare, linked_ofOutline options top,
        linked_ofOutline options bareTop, top.pragma?_place, bareTop.pragma?_place⟩
    have elements := elided.forall₂_elements
    refine ⟨ofOutline options bareTop, ofDescription_element_eq_ok_iff.2 ⟨bareTop, drawnBare, rfl⟩,
      elements.length_eq.symm, ?_⟩
    intro s c compiled ignores k e e' found found'
    obtain ⟨m, compiledChain, rfl⟩ := map_eq_ok_iff.1 compiled
    have pair : ((ofOutline options top).elements.zip (ofOutline options bareTop).elements)[k]? =
        some (e, e') := List.getElem?_zip_eq_some.2 ⟨found, found'⟩
    have twins := List.forall₂_zip elements (List.mem_of_getElem? pair)
    exact elided.resemblance.accepts_iff compiledChain ignores twins

/-- A list with texts and a comment between its two items. -/
def spaced : Description :=
  .element ⟨"ul", none, [], []⟩
    [.text "t", .element ⟨"li", none, [], []⟩ [], .comment "c", .text "u",
      .element ⟨"li", none, [("lang", "en-GB")], []⟩ [.text "v", .element ⟨"b", none, [], []⟩ []]]

/-- The selector `li + :lang(en)` matches the second item. The item is node 6, and node 3 if there
are no texts and comments. -/
theorem accepts_spaced_item :
    let s := Selector.ofChain (.joined (.single [.typeName "li"]) .nextSibling
      [.functional "lang" [.ident "en"]]) none
    ∃ doc bare c e e', (ofDescription { html := true } spaced).1 = .ok doc ∧
      (ofDescription { html := true } spaced.withoutText).1 = .ok bare ∧
      s.compile = .ok c ∧ s.chain.IgnoresContent ∧
      doc.elements[2]? = some e ∧ bare.elements[2]? = some e' ∧ e.id = 6 ∧ e'.id = 3 ∧
      c.accepts doc e = true ∧ c.accepts bare e' = true := by
  intro s
  obtain ⟨doc, loaded, e, found, id, c, compiled, accepted⟩ : ∃ doc,
      (ofDescription { html := true } spaced).1 = .ok doc ∧ ∃ e, doc.elements[2]? = some e ∧
        e.id = 6 ∧ ∃ c, s.compile = .ok c ∧ c.accepts doc e = true :=
    ⟨_, rfl, _, rfl, rfl, _, rfl, by decide⟩
  obtain ⟨bare, loadedBare, e', found', id'⟩ : ∃ bare,
      (ofDescription { html := true } spaced.withoutText).1 = .ok bare ∧
        ∃ e', bare.elements[2]? = some e' ∧ e'.id = 3 := ⟨_, rfl, _, rfl, rfl⟩
  have ignores : s.chain.IgnoresContent := by
    simp [s, Selector.ofChain, Chain.IgnoresContent, Chain.simples, Simple.partsAll, Simple.parts]
  obtain ⟨same, loadedSame, -, agree⟩ := accepts_iff_without_text loaded
  obtain rfl : bare = same := Except.ok.inj (loadedBare.symm.trans loadedSame)
  exact ⟨doc, bare, c, e, e', loaded, loadedBare, compiled, ignores, found, found', id, id', accepted,
    (agree s c compiled ignores 2 e e' found found').1 accepted⟩

end Document

end Selectors
