import Selectors.Proofs.NodeCount
import Selectors.Proofs.Paths
import Selectors.Proofs.Queries
import Selectors.Proofs.Stability

/-!
The path that is told of an element leads to it. In a loaded document every element is told from all
others by its path, and the path, read as a selector, matches the element (`paths_locate`).

A path below the top is the one of the parent and one more step (`pathOf_eq`), so both are shown
from the parent down. The places tell siblings apart, and only the top has no place, for nothing but
the document node and elements has children (`Keeps.element?_isSome`).
-/

namespace Selectors

open Description

/-! ## Loaded documents -/

namespace Document

variable {doc : Document} {e f : Element} {id parent : Nat} {options : LoadOptions}
  {d : Description}

/-- Every node but the document node is a described one. -/
theorem Keeps.exists_standsAt (keeps : doc.Keeps options d) (inside : id < doc.size)
    (notRoot : id ≠ Document.root) :
    ∃ node parent previous? next?, StandsAt options.html doc parent previous? next? id node := by
  have pos : 0 < id := Nat.pos_of_ne_zero notRoot
  rw [keeps.size] at inside
  obtain ⟨node, found⟩ : ∃ node, d.listing[id - 1]? = some node :=
    ⟨_, List.getElem?_eq_getElem (by omega)⟩
  obtain ⟨parent, previous?, next?, stands⟩ := keeps.order _ node found
  rw [Nat.add_sub_cancel' pos] at stands
  exact ⟨node, parent, previous?, next?, stands⟩

theorem Keeps.id_ne_root (keeps : doc.Keeps options d) (here : doc.Has e) :
    e.id ≠ Document.root := by
  intro same
  have found := here.element?
  rw [same, keeps.element?_root] at found
  cases found

/-- All elements of a loaded document are below its document node. -/
theorem Keeps.mem_elements_iff (keeps : doc.Keeps options d) : e ∈ doc.elements ↔ doc.Has e := by
  rw [Document.mem_elements_iff, and_iff_right_iff_imp, keeps.descendants, List.mem_range'_1]
  intro here
  have inside : e.id < 1 + d.listing.length := keeps.size ▸ here.lt
  exact ⟨Nat.pos_of_ne_zero (keeps.id_ne_root here), inside⟩

/-- Nothing but the document node and elements has children. -/
theorem Keeps.element?_isSome (keeps : doc.Keeps options d) (linked : doc.Linked)
    (below : doc.parent? id = some parent) (notRoot : parent ≠ Document.root) :
    (doc.element? parent).isSome := by
  obtain ⟨node, _, _, _, stands⟩ := keeps.exists_standsAt (linked.parent_lt id parent below) notRoot
  have member := (linked.mem_children_iff parent id).2 below
  rw [stands.children_eq] at member
  obtain ⟨content, tells, found⟩ := stands
  cases tells with
  | text | comment => cases member
  | element => rw [element?, elementData?, found]; rfl

/-- An element without a parent element is the top. -/
theorem Keeps.id_eq_one (keeps : doc.Keeps options d) (linked : doc.Linked) (here : doc.Has e)
    (alone : doc.parentElement? e = none) : e.id = 1 := by
  obtain ⟨node, parent, _, _, content, _, found⟩ :=
    keeps.exists_standsAt here.lt (keeps.id_ne_root here)
  have below : doc.parent? e.id = some parent := by rw [parent?, found]; rfl
  have isRoot : parent = Document.root := by
    by_contra notRoot
    have above := keeps.element?_isSome linked below notRoot
    rw [parentElement?, below, Option.bind_some] at alone
    rw [alone] at above
    cases above
  have member := (linked.mem_children_iff parent e.id).2 below
  rw [isRoot, keeps.children_root] at member
  exact List.mem_singleton.1 member

end Document

/-! ## Compounds without a fault -/

/-- A compound whose members have no fault and hold of an element accepts it. -/
theorem Compound.exists_accepting {doc : Document} {e : Element} {c : Compound}
    (each : ∀ simple ∈ c, (∃ m, simple.matcher = .ok m) ∧ simple.Holds doc e) :
    ∃ m, Compound.matcher c = .ok m ∧ m.accepts doc e = true := by
  have compiles : ∃ members, Simple.matchers c = .ok members := by
    induction c with
    | nil => exact ⟨[], rfl⟩
    | cons simple rest ih =>
      obtain ⟨⟨⟨m, first⟩, -⟩, others⟩ := List.forall_mem_cons.1 each
      obtain ⟨members, compiled⟩ := ih others
      exact ⟨_, Simple.matchers_cons_eq_ok_iff.2 ⟨m, members, first, compiled, rfl⟩⟩
  obtain ⟨members, compiled⟩ := compiles
  have whole : Compound.matcher c = .ok (.all members) := by rw [Compound.matcher, compiled]; rfl
  exact ⟨_, whole, (Compound.accepts_iff_holds whole).2 fun simple member => (each simple member).2⟩

/-! ## The path of an element -/

namespace CommandLine

variable {doc : Document} {e f p : Element} {emphasis : String → String}

/-- The step that leads to an element. -/
def stepOf (doc : Document) (e : Element) : PathStep where
  name := e.data.name
  id? := e.data.id?
  place? := if (doc.parentElement? e).isSome then some (doc.siblingIndex e + 1) else none

/-- The path to an element down from the last of its ancestors. -/
def pathBelow (doc : Document) (e : Element) : List Element → Path
  | [] => .root (stepOf doc e)
  | parent :: above => .child (pathBelow doc parent above) (stepOf doc e)

def pathOf (doc : Document) (e : Element) : Path := pathBelow doc e (doc.ancestorElements e)

theorem text_stepOf (doc : Document) (e : Element) : (stepOf doc e).text = pathStep doc e := by
  rw [pathStep, PathStep.text, PathStep.idText, PathStep.placeText, stepOf]
  dsimp only
  cases doc.parentElement? e <;> rfl

theorem textWith_pathBelow (e : Element) (above : List Element) :
    (pathBelow doc e above).textWith emphasis = " > ".intercalate
      (above.reverse.map (pathStep doc) ++ [emphasis (pathStep doc e)]) := by
  induction above generalizing e emphasis with
  | nil =>
    rw [pathBelow, Path.textWith, text_stepOf]
    exact String.intercalate_singleton.symm
  | cons parent above ih =>
    have front := @ih id parent
    rw [Path.textWith_id, id_eq] at front
    have full : above.reverse.map (pathStep doc) ++ [pathStep doc parent] ≠ [] :=
      List.append_ne_nil_of_right_ne_nil _ (List.cons_ne_nil _ _)
    rw [pathBelow, Path.textWith, front, text_stepOf, List.reverse_cons, List.map_append,
      List.map_singleton, String.intercalate_append_of_ne_nil full (List.cons_ne_nil _ _),
      String.intercalate_singleton]

/-- What is told of an element is its path. -/
theorem elementPath_eq (emphasis : String → String) (doc : Document) (e : Element) :
    elementPath emphasis doc e = (pathOf doc e).textWith emphasis :=
  (textWith_pathBelow e _).symm

section Linked

variable (linked : doc.Linked)
include linked

/-- The path of an element is the one of its parent and a step more. -/
theorem pathOf_eq (e : Element) :
    pathOf doc e = (doc.parentElement? e).elim (.root (stepOf doc e))
      fun p => .child (pathOf doc p) (stepOf doc e) := by
  rw [pathOf, Document.ancestorElements_eq linked.acyclic linked.parent_lt]
  cases doc.parentElement? e <;> rfl

theorem plain_pathOf (plain : ∀ f, doc.Has f → (stepOf doc f).Plain) :
    doc.Has e → (pathOf doc e).Plain := by
  induction e using Document.induction_up linked.acyclic linked.parent_lt with
  | step e ih =>
    intro here
    rw [pathOf_eq linked]
    cases above : doc.parentElement? e with
    | none => exact plain e here
    | some p =>
      exact ⟨ih p above (Document.parentElement?_eq_some_iff.1 above).2, plain e here⟩

/-- Siblings with one place are one element. -/
theorem eq_of_siblingIndex_eq (here : doc.Has e) (there : doc.Has f)
    (siblings : doc.siblings e = doc.siblings f) (index : doc.siblingIndex e = doc.siblingIndex f) :
    e = f := by
  obtain ⟨i, -, place, rfl, -⟩ := linked.exists_place here
  obtain ⟨j, -, place', rfl, -⟩ := linked.exists_place there
  have found := (place _).2 rfl
  rw [siblings, index, (place' _).2 rfl] at found
  exact (Option.some.inj found).symm

/-- Two elements of a loaded document with one path are one element. -/
theorem pathOf_inj {options : LoadOptions} {d : Description} (keeps : doc.Keeps options d) :
    doc.Has e → doc.Has f → pathOf doc e = pathOf doc f → e = f := by
  induction e using Document.induction_up linked.acyclic linked.parent_lt generalizing f with
  | step e ih =>
    intro here there same
    rw [pathOf_eq linked, pathOf_eq linked] at same
    cases above : doc.parentElement? e with
    | none =>
      cases above' : doc.parentElement? f with
      | none =>
        have top := keeps.id_eq_one linked here above
        exact here.eq_of_id_eq there (top.trans (keeps.id_eq_one linked there above').symm)
      | some q =>
        rw [above, above'] at same
        cases same
    | some p =>
      cases above' : doc.parentElement? f with
      | none =>
        rw [above, above'] at same
        cases same
      | some q =>
        rw [above, above', Option.elim_some, Option.elim_some, Path.child.injEq] at same
        obtain ⟨below, hasParent⟩ := Document.parentElement?_eq_some_iff.1 above
        obtain ⟨below', hasParent'⟩ := Document.parentElement?_eq_some_iff.1 above'
        obtain rfl := ih p above hasParent hasParent' same.1
        have place := congrArg PathStep.place? same.2
        simp only [stepOf, above, above', Option.isSome_some, if_true, Option.some.injEq,
          Nat.add_right_cancel_iff] at place
        exact eq_of_siblingIndex_eq linked here there
          ((linked.siblings_eq below).trans (linked.siblings_eq below').symm) place

/-- There are fewer siblings in front of an element than nodes. -/
theorem siblingIndex_lt_size (here : doc.Has e) : doc.siblingIndex e < doc.size := by
  obtain ⟨i, inside, -, rfl, -⟩ := linked.exists_place here
  refine Nat.lt_of_lt_of_le inside ?_
  cases below : doc.parent? e.id with
  | none =>
    rw [Document.siblings_of_parent?_eq_none below]
    exact Nat.succ_le_of_lt (Nat.zero_lt_of_lt here.lt)
  | some parent =>
    have fits := length_le_of_nodup_of_lt (linked.nodup_children parent) (linked.children_lt parent)
    rw [linked.siblings_eq below]
    exact Nat.le_trans (List.length_filterMap_le _ _) fits

variable (fits : doc.size < 2 ^ 63)
include fits

/-- The place of an element can be asked for, and the element stands there. -/
theorem exists_place_matcher (here : doc.Has e) :
    let place : Simple := .functional "nth-child" (placeArguments (doc.siblingIndex e + 1))
    (∃ m, place.matcher = .ok m) ∧ place.Holds doc e := by
  have inside := siblingIndex_lt_size linked here
  obtain ⟨b, parsed, value⟩ := @exists_parse?_placeArguments (doc.siblingIndex e + 1) (by omega)
  have known : FunctionalPseudoClass.ofName? "nth-child" = some (.nth .child) := rfl
  have compiled : functionalMatcher "nth-child" (placeArguments (doc.siblingIndex e + 1)) =
      .ok (.test (.nth .child ⟨0, b⟩)) := by
    rw [functionalMatcher, known]
    dsimp only
    rw [parsed]
  have position : (doc.nthPosition e .child : Int) + 1 = 0 * (0 : Nat) + b.toInt := by
    rw [value, Document.nthPosition]
    omega
  exact ⟨⟨_, compiled⟩, _, known, ⟨0, b⟩, parsed, 0, position⟩

/-- The step that leads to an element accepts it. -/
theorem exists_step_accepting (here : doc.Has e) :
    ∃ m, Compound.matcher (stepOf doc e).compound = .ok m ∧ m.accepts doc e = true := by
  refine Compound.exists_accepting fun simple member => ?_
  simp only [PathStep.compound, PathStep.members, stepOf, List.mem_cons, List.mem_append] at member
  rcases member with rfl | isId | isPlace
  · exact ⟨⟨_, rfl⟩, rfl⟩
  · cases found : e.data.id? with
    | none =>
      rw [found] at isId
      cases isId
    | some value =>
      rw [found, Option.elim_some, List.mem_singleton] at isId
      rw [isId]
      exact ⟨⟨_, rfl⟩, found⟩
  · by_cases below : (doc.parentElement? e).isSome = true
    · rw [if_pos below, Option.elim_some, List.mem_singleton] at isPlace
      rw [isPlace]
      exact exists_place_matcher linked fits here
    · rw [if_neg below] at isPlace
      cases isPlace

/-- The path that leads to an element accepts it. -/
theorem exists_path_accepting :
    doc.Has e → ∃ m, (pathOf doc e).chain.matcher = .ok m ∧ m.accepts doc e = true := by
  induction e using Document.induction_up linked.acyclic linked.parent_lt with
  | step e ih =>
    intro here
    obtain ⟨own, compiledOwn, acceptsOwn⟩ := exists_step_accepting linked fits here
    rw [pathOf_eq linked]
    cases above : doc.parentElement? e with
    | none => exact ⟨own, compiledOwn, acceptsOwn⟩
    | some p =>
      obtain ⟨relative, compiled, accepts⟩ :=
        ih p above (Document.parentElement?_eq_some_iff.1 above).2
      refine ⟨_, Chain.matcher_joined_eq_ok_iff.2 ⟨relative, own, compiled, compiledOwn, rfl⟩, ?_⟩
      have related : (Combinator.child.relation relative).accepts doc e = true :=
        Combinator.accepts_relation.2 ⟨p, above, accepts⟩
      rw [Matcher.accepts_all, List.all_cons, List.all_cons, acceptsOwn, related]
      rfl

end Linked

/-- **The path of an element leads to it.** Take any document that was loaded, with plain names and
identifiers. Without escape sequences, what is told of an element differs from what is told of any
other one. Read as a selector it is a single one, which matches the element. The places in it are
read as integers of 64 bits, and all of them fit: no text takes `2 ^ 63` bytes in memory, and there
are no more nodes than characters in it. -/
theorem paths_locate {options : LoadOptions} {source : String} {doc : Document}
    {warnings : List Warning} (loaded : Document.load options source = (.ok doc, warnings))
    (plain : ∀ e ∈ doc.elements,
      isPlainName e.data.name = true ∧ ∀ id ∈ e.data.id?, isPlainName id = true) :
    (∀ e ∈ doc.elements, ∀ f ∈ doc.elements,
      unstyled (elementPath bold doc e) = unstyled (elementPath bold doc f) → e = f) ∧
    (source.length < 2 ^ 63 → ∀ e ∈ doc.elements, ∃ c,
      compileList (unstyled (elementPath bold doc e)) {} = .ok [c] ∧ c.accepts doc e = true) := by
  obtain ⟨linked, description, -, keeps⟩ := Document.exists_keeps_of_load loaded
  have plainSteps (e : Element) (here : doc.Has e) : (stepOf doc e).Plain :=
    plain e (keeps.mem_elements_iff.2 here)
  have told {e : Element} (here : doc.Has e) :
      unstyled (elementPath bold doc e) = (pathOf doc e).text := by
    rw [elementPath_eq]
    exact Path.unstyled_textWith (plain_pathOf linked plainSteps here)
  constructor
  · intro e inside f inside' same
    have here := keeps.mem_elements_iff.1 inside
    have there := keeps.mem_elements_iff.1 inside'
    rw [told here, told there] at same
    exact pathOf_inj linked keeps here there (Path.text_inj (plain_pathOf linked plainSteps here)
      (plain_pathOf linked plainSteps there) same)
  · intro short e inside
    have here := keeps.mem_elements_iff.1 inside
    have fits : doc.size < 2 ^ 63 :=
      Nat.lt_of_le_of_lt (Document.size_le_length_of_load loaded) short
    obtain ⟨m, compiled, accepts⟩ := exists_path_accepting linked fits here
    obtain ⟨c, single, rfl⟩ :=
      Path.exists_compileList_eq (plain_pathOf linked plainSteps here) compiled
    rw [told here]
    exact ⟨c, single, accepts⟩

/-- A list with a text in front of its item. -/
def listSource : String :=
  "\x7b\"name\":\"ul\",\"children\":[\"t\",\x7b\"name\":\"li\"\x7d]\x7d"

/-- The item is the third node and the first element of the list. -/
theorem paths_locate_item :
    let item : Element := ⟨3, { name := "li" }⟩
    ∃ doc, Document.load {} listSource = (.ok doc, []) ∧
      (∀ e ∈ doc.elements,
        isPlainName e.data.name = true ∧ ∀ id ∈ e.data.id?, isPlainName id = true) ∧
      listSource.length < 2 ^ 63 ∧ item ∈ doc.elements ∧
      unstyled (elementPath bold doc item) = "ul > li:nth-child(1)" ∧
      ∃ c, compileList "ul > li:nth-child(1)" {} = .ok [c] ∧ c.accepts doc item = true := by
  intro item
  let members : List (String × Json) :=
    [("name", .string "ul"), ("children", .array [.string "t", .object [("name", .string "li")]])]
  have read : Json.read? listSource = some (.object members, true) := by
    unfold Json.read? Json.value? Json.members? Json.members? Json.value? Json.items? Json.items?
      Json.value? Json.members? Json.value?
    with_unfolding_all rfl
  let doc : Document :=
    .ofOutline {} (.element { name := "ul" } [.text "t", .element { name := "li" } []])
  have loaded : Document.load {} listSource = (.ok doc, []) := by
    rw [Document.load, Document.describe, read]
    rfl
  have plain : ∀ e ∈ doc.elements,
      isPlainName e.data.name = true ∧ ∀ id ∈ e.data.id?, isPlainName id = true := by decide
  have short : listSource.length < 2 ^ 63 := by decide
  have inside : item ∈ doc.elements := by decide
  have path : unstyled (elementPath bold doc item) = "ul > li:nth-child(1)" := by decide
  have leads := (paths_locate loaded plain).2 short item inside
  rw [path] at leads
  exact ⟨doc, loaded, plain, short, inside, path, leads⟩

end CommandLine

end Selectors
