import Selectors.Proofs.Languages

/-!
What a document remembers never shows. A program changes a document and asks for languages in any
order (`Document.Action`). A node may be appended although it has a parent already, as long as no
loop comes of it. Some changes make the document forget the language of the pragma and others leave
it, but whatever is remembered stays what would be found (`Settled.act`). So every answer is the one
that the rules give for the document as it stands, and a run without the questions that came before
has the same answer (`language_after_run`).
-/

namespace Selectors

namespace Document

variable {doc doc' start : Document} {parent child id : NodeId} {e top : Element}

/-! ## Documents that go on from another one -/

/-- The second document has the links of the first one, and the nodes of the first one are in it
what they were. -/
structure Extends (doc doc' : Document) : Prop extends SameLinks doc doc' where
  element? : ∀ id < doc.size, doc'.element? id = doc.element? id

theorem extends_alloc (doc : Document) (content : Content) : Extends doc (doc.alloc content) where
  toSameLinks := sameLinks_alloc doc content
  element? id inside := by
    unfold element? elementData?
    rw [node?_alloc, if_neg (Nat.ne_of_lt inside)]

theorem extends_of_nodes_eq (same : doc'.nodes = doc.nodes) : Extends doc doc' where
  toSameLinks := sameLinks_of_nodes_eq same
  element? id _ := by
    unfold element? elementData? node?
    rw [same]

section Extending

variable (grown : Extends doc doc') (closed : doc.Closed) (loopless : doc.Loopless)
include grown closed

theorem Extends.documentElement?_eq : doc'.documentElement? = doc.documentElement? := by
  have inside : ∀ id ∈ doc.children root, doc'.element? id = doc.element? id :=
    fun id member => grown.element? id (closed.children_lt root id member)
  unfold documentElement?
  rw [grown.children, ← List.head?_filterMap, ← List.head?_filterMap, List.filterMap_congr inside]

include loopless

theorem Extends.descendants_eq (id : NodeId) : doc'.descendants id = doc.descendants id := by
  have listing := listing_descendants closed loopless id
  have listing' := listing_descendants (grown.closed closed) (grown.loopless loopless) id
  rw [grown.children] at listing'
  exact listing'.unique (listing.of_children_eq (funext grown.children))

theorem Extends.pragmaLanguage?_eq (top : Element) :
    doc'.pragmaLanguage? top = doc.pragmaLanguage? top := by
  have inside : ∀ id ∈ doc.descendants top.id, doc'.element? id = doc.element? id := by
    intro id member
    have contains := (mem_descendants_iff closed loopless).1 member
    exact grown.element? id (closed.lt_of_contains contains)
  unfold pragmaLanguage? subtree
  rw [grown.descendants_eq closed loopless, List.filterMap_congr inside]

/-- A document that remembers the same still remembers the truth. -/
theorem Extends.truthful (same : doc'.pragma? = doc.pragma?) (truthful : doc.Truthful) :
    doc'.Truthful := by
  intro answer remembered
  rw [same] at remembered
  obtain ⟨d, found, fresh⟩ := truthful answer remembered
  refine ⟨d, (grown.documentElement?_eq closed).trans found, ?_⟩
  rw [grown.pragmaLanguage?_eq closed loopless, fresh]

end Extending

/-! ## Runs -/

/-- What a program does to a document: it changes it, or it asks for the language of an element. -/
inductive Action : Type where
  | alloc (content : Content)
  | append (parent child : NodeId)
  | appendNew (parent : NodeId) (content : Content)
  | changeContent (id : NodeId) (change : Content → Content)
  | setTransportLanguage (language? : Option String)
  | copy
  | askLanguage (e : Element)

/-- Everything but a question is a change. -/
def Action.isChange : Action → Bool
  | .askLanguage _ => false
  | _ => true

/-- The document after an action. -/
def act (doc : Document) : Action → Document
  | .alloc content => doc.alloc content
  | .append parent child => doc.append parent child
  | .appendNew parent content => doc.appendNew parent content
  | .changeContent id change => doc.changeContent id change
  | .setTransportLanguage language? => doc.setTransportLanguage language?
  | .copy => doc
  | .askLanguage e => (doc.askLanguage e).2

/-- The document after several actions. -/
def after (doc : Document) (actions : List Action) : Document := actions.foldl act doc

/-- The nodes and the element that an action names are there. -/
def Allows (doc : Document) : Action → Prop
  | .append parent child => parent < doc.size ∧ child < doc.size
  | .appendNew parent _ => parent < doc.size
  | .askLanguage e => doc.Has e
  | _ => True

instance (doc : Document) : (a : Action) → Decidable (doc.Allows a)
  | .append parent child => inferInstanceAs (Decidable (parent < doc.size ∧ child < doc.size))
  | .appendNew parent _ => inferInstanceAs (Decidable (parent < doc.size))
  | .askLanguage e => inferInstanceAs (Decidable (doc.Has e))
  | .alloc _ | .changeContent _ _ | .setTransportLanguage _ | .copy =>
    inferInstanceAs (Decidable True)

/-- Each of several actions is possible when its turn comes, and none makes a loop. -/
def Lawful : Document → List Action → Prop
  | _, [] => True
  | doc, a :: rest => doc.Allows a ∧ (doc.act a).Loopless ∧ (doc.act a).Lawful rest

/-! ## One action -/

/-- A document whose links can be followed and whose memory is right. -/
structure Settled (doc : Document) : Prop where
  closed : doc.Closed
  loopless : doc.Loopless
  truthful : doc.Truthful

theorem Closed.append (closed : doc.Closed) (parentInside : parent < doc.size)
    (childInside : child < doc.size) : (doc.append parent child).Closed where
  children_lt p c member := by
    rw [size_append]
    rw [children_append parentInside] at member
    split at member
    · rcases List.mem_append.1 member with old | new
      · exact closed.children_lt p c old
      · exact List.mem_singleton.1 new ▸ childInside
    · exact closed.children_lt p c member
  parent_lt id p link := by
    rw [size_append]
    rw [parent?_append childInside] at link
    split at link
    · exact Option.some.inj link ▸ parentInside
    · exact closed.parent_lt id p link

theorem Closed.act (closed : doc.Closed) {a : Action} (allowed : doc.Allows a) :
    (doc.act a).Closed := by
  cases a with
  | alloc content => exact (sameLinks_alloc doc content).closed closed
  | append parent child => exact closed.append allowed.1 allowed.2
  | appendNew parent content =>
    have grown := (sameLinks_alloc doc content).closed closed
    refine grown.append ?_ ?_
    · exact Nat.lt_of_lt_of_le allowed (sameLinks_alloc doc content).size_le
    · rw [size_alloc]
      exact Nat.lt_succ_self _
  | changeContent id change => exact (sameLinks_changeContent doc id change).closed closed
  | setTransportLanguage language? =>
    have same : SameLinks doc (doc.setTransportLanguage language?) := sameLinks_of_nodes_eq rfl
    exact same.closed closed
  | copy => exact closed
  | askLanguage e => exact (sameLinks_of_nodes_eq (nodes_askLanguage e)).closed closed

theorem truthful_of_pragma?_eq_none (nothing : doc.pragma? = none) : doc.Truthful := by
  intro answer remembered
  rw [nothing] at remembered
  cases remembered

theorem pragma?_append : (doc.append parent child).pragma? = none := by
  unfold append
  cases (doc.children parent).getLast? <;> rfl

theorem has_topElement (here : doc.Has e) : doc.Has (doc.topElement e) := by
  have member : doc.topElement e ∈ doc.lineage e := List.getLast_mem _
  rcases List.mem_cons.1 member with same | above
  · rw [same]
    exact here
  · exact has_of_mem_leadingElements above

/-- A question makes the document remember what it found out. -/
theorem Settled.truthful_remember (settled : doc.Settled) (here : doc.Has e) :
    (doc.remember e).Truthful := by
  obtain ⟨closed, loopless, truthful⟩ := settled
  have grown : Extends doc (doc.remember e) := extends_of_nodes_eq (nodes_askLanguage e)
  have isTopHere := has_topElement here
  by_cases remembers : ((doc.inheritedLanguage? e).isNone && doc.honorsHtml (doc.topElement e) &&
      doc.isDocumentElement (doc.topElement e)) = true
  · have isTop := (Bool.and_eq_true_iff.1 remembers).2
    intro answer remembered
    refine ⟨doc.topElement e, ?_, ?_⟩
    · rw [grown.documentElement?_eq closed]
      exact documentElement?_of_isDocumentElement isTopHere isTop
    · rw [grown.pragmaLanguage?_eq closed loopless, ← rememberedPragma?_eq truthful isTopHere]
      rw [remember, if_pos remembers] at remembered
      exact Option.some.inj remembered
  · refine grown.truthful closed loopless ?_ truthful
    rw [remember, if_neg remembers]

/-- No action leaves a wrong memory. -/
theorem Settled.act (settled : doc.Settled) {a : Action} (allowed : doc.Allows a)
    (loopless : (doc.act a).Loopless) : (doc.act a).Settled := by
  refine ⟨settled.closed.act allowed, loopless, ?_⟩
  cases a with
  | alloc content =>
    exact (extends_alloc doc content).truthful settled.closed settled.loopless rfl settled.truthful
  | append parent child => exact truthful_of_pragma?_eq_none pragma?_append
  | appendNew parent content => exact truthful_of_pragma?_eq_none pragma?_append
  | changeContent id change => exact truthful_of_pragma?_eq_none rfl
  | setTransportLanguage language? =>
    have grown : Extends doc (doc.setTransportLanguage language?) := extends_of_nodes_eq rfl
    exact grown.truthful settled.closed settled.loopless rfl settled.truthful
  | copy => exact settled.truthful
  | askLanguage e => exact settled.truthful_remember allowed

/-- No run leaves a wrong memory. -/
theorem Settled.after (settled : doc.Settled) {actions : List Action}
    (lawful : doc.Lawful actions) : (doc.after actions).Settled := by
  induction actions generalizing doc with
  | nil => exact settled
  | cons a rest ih =>
    obtain ⟨allowed, loopless, lawfulRest⟩ := lawful
    exact ih (settled.act allowed loopless) lawfulRest

end Document

/-! ## Starts -/

mutual

theorem Outline.pragma?_place {parent : NodeId} : ∀ (outline : Outline) {doc : Document},
    (outline.place parent doc).pragma? = none
  | .text _, _ => Document.pragma?_append
  | .comment _, _ => Document.pragma?_append
  | .element _ children, _ => Outline.pragma?_placeAll children Document.pragma?_append

theorem Outline.pragma?_placeAll {parent : NodeId} : ∀ (outlines : List Outline) {doc : Document},
    doc.pragma? = none → (Outline.placeAll parent outlines doc).pragma? = none
  | [], _, nothing => nothing
  | node :: rest, _, _ => Outline.pragma?_placeAll rest (Outline.pragma?_place node)

end

namespace Document

variable {doc start : Document} {e : Element}

theorem Start.pragma?_eq_none (made : Start start) : start.pragma? = none := by
  cases made with
  | empty html => rfl
  | load loaded =>
    obtain ⟨top, rfl⟩ := exists_outline_of_load loaded
    exact top.pragma?_place

theorem Start.settled (made : Start start) : start.Settled where
  closed := made.linked.closed
  loopless := made.linked.loopless
  truthful := truthful_of_pragma?_eq_none made.pragma?_eq_none

/-! ## Runs without questions -/

theorem forgetPragma_askLanguage (e : Element) :
    (doc.askLanguage e).2.forgetPragma = doc.forgetPragma := by
  unfold askLanguage remember
  dsimp only
  split <;> rfl

/-- A change does not look at what is remembered. -/
theorem act_forgetPragma {a : Action} (change : a.isChange = true) :
    doc.forgetPragma.act a = (doc.act a).forgetPragma := by
  have append (doc : Document) (parent child : NodeId) :
      doc.forgetPragma.append parent child = (doc.append parent child).forgetPragma := by
    unfold Document.append
    have same : doc.forgetPragma.children parent = doc.children parent := rfl
    rw [same]
    cases (doc.children parent).getLast? <;> simp only [forgetPragma, linkNeighbours, update]
  cases a with
  | append parent child => exact append doc parent child
  | appendNew parent content => exact append (doc.alloc content) parent doc.size
  | askLanguage e => cases change
  | alloc | changeContent | setTransportLanguage | copy => rfl

/-- A run without its questions leads to the same document, with nothing remembered. -/
theorem after_filter_isChange (actions : List Action) :
    doc.forgetPragma.after (actions.filter Action.isChange) = (doc.after actions).forgetPragma := by
  induction actions generalizing doc with
  | nil => rfl
  | cons a rest ih =>
    cases change : a.isChange with
    | true =>
      rw [List.filter_cons_of_pos change, after, List.foldl_cons, act_forgetPragma change]
      exact ih
    | false =>
      have question : (doc.act a).forgetPragma = doc.forgetPragma := by
        cases a with
        | askLanguage e => exact forgetPragma_askLanguage e
        | _ => cases change
      rw [List.filter_cons_of_neg (by rw [change]; exact Bool.false_ne_true), ← question, ih]
      rfl

/-- What is remembered changes no answer. -/
theorem Settled.language?_forgetPragma (settled : doc.Settled) (here : doc.Has e) :
    doc.forgetPragma.language? e = doc.language? e := by
  obtain ⟨closed, loopless, truthful⟩ := settled
  have grown : Extends doc doc.forgetPragma := extends_of_nodes_eq rfl
  have forgetful : doc.forgetPragma.Truthful := truthful_of_pragma?_eq_none rfl
  revert here
  refine induction_up (motive := fun e => doc.Has e →
    doc.forgetPragma.language? e = doc.language? e) loopless.parents closed.parent_lt
    (fun e ih here => ?_) e
  rw [language?_eq closed loopless,
    language?_eq (grown.closed closed) (grown.loopless loopless)]
  have sameParent : doc.forgetPragma.parentElement? e = doc.parentElement? e := rfl
  have sameDeclared : doc.forgetPragma.declaredLanguage? e = doc.declaredLanguage? e := rfl
  rw [sameParent, sameDeclared]
  cases above : doc.parentElement? e with
  | none =>
    have sameFallback : doc.forgetPragma.fallbackLanguage? e = doc.fallbackLanguage? e := by
      rw [fallbackLanguage?_eq forgetful here, fallbackLanguage?_eq truthful here,
        grown.pragmaLanguage?_eq closed loopless]
      rfl
    rw [Option.elim_none, Option.elim_none, sameFallback]
  | some p =>
    rw [Option.elim_some, Option.elim_some, ih p above (parentElement?_eq_some_iff.1 above).2]

/-- **What a document remembers never shows.** After any run of changes and questions the answer to
a question is the one that the rules give for the document as it stands, and it is the answer after
the same run without any question. -/
theorem language_after_run {actions : List Action} (made : Start start)
    (lawful : start.Lawful actions) (here : (start.after actions).Has e) :
    (∀ answer, ((start.after actions).askLanguage e).1 = answer ↔
      (start.after actions).Speaks e answer) ∧
    ((start.after (actions.filter Action.isChange)).askLanguage e).1 =
      ((start.after actions).askLanguage e).1 := by
  have settled := made.settled.after lawful
  have untouched : start.forgetPragma = start := by
    have nothing := made.pragma?_eq_none
    cases start
    cases nothing
    rfl
  have plain : start.after (actions.filter Action.isChange) =
      (start.after actions).forgetPragma := by
    rw [← after_filter_isChange, untouched]
  constructor
  · intro answer
    exact (speaks_iff settled.closed settled.loopless settled.truthful here).symm
  · rw [plain]
    exact settled.language?_forgetPragma here

/-- The data of an element `html`, which declares no language. -/
def htmlData : ElementData := { name := "html", namespaceUrl? := some htmlNamespace }

/-- The data of a pragma. -/
def pragmaData (language : String) : ElementData where
  name := "meta"
  namespaceUrl? := some htmlNamespace
  attributes := [⟨"", "http-equiv", "content-language"⟩, ⟨"", "content", language⟩]

/-- The question comes while the pragma says `en`, and then the pragma is changed. -/
def changedPragma : List Action :=
  [.appendNew root (.element htmlData), .appendNew 1 (.element (pragmaData "en")),
    .askLanguage ⟨1, htmlData⟩, .changeContent 2 fun _ => .element (pragmaData "fr"),
    .alloc (.text "t"), .setTransportLanguage (some "de")]

/-- The document after that. -/
def afterChange : Document := (empty true).after changedPragma

/-- The answer is the new language, neither the one that was remembered nor the one that came with
the document. -/
theorem language_after_changedPragma :
    Start (empty true) ∧ (empty true).Lawful changedPragma ∧ afterChange.Has ⟨1, htmlData⟩ ∧
      (afterChange.askLanguage ⟨1, htmlData⟩).1 = some "fr" := by
  have plain := congrArg nodes (@after_filter_isChange (empty true) changedPragma)
  have grown : Extends ((empty true).after (changedPragma.filter Action.isChange)) afterChange :=
    extends_of_nodes_eq plain.symm
  have linked := linked_empty true
  have html := (@Edit.appendNew _ root (.element htmlData) (by decide)).linked linked
  have pragma := (@Edit.appendNew _ 1 (.element (pragmaData "en")) (by decide)).linked html
  have asked := (Edit.askLanguage ⟨1, htmlData⟩).linked pragma
  have changed := (Edit.changeContent 2 fun _ => .element (pragmaData "fr")).linked asked
  have text := (Edit.alloc (.text "t")).linked changed
  have transport := (Edit.setTransportLanguage (some "de")).linked text
  have lawful : (empty true).Lawful changedPragma :=
    ⟨by decide, html.loopless, by decide, pragma.loopless, by decide, asked.loopless,
      trivial, changed.loopless, trivial, text.loopless, trivial, transport.loopless, trivial⟩
  have here : afterChange.Has ⟨1, htmlData⟩ := by
    have found := grown.element? 1 (by decide)
    exact (element?_eq_some_iff.1 (found.trans (by decide))).2
  have silent (language : String) : ¬ afterChange.Declares ⟨1, htmlData⟩ language := by
    intro declares
    cases declares with
    | xml found => cases found
    | html _ _ found => cases found
  have atTop : afterChange.parentElement? ⟨1, htmlData⟩ = none := by
    have above : afterChange.parent? 1 = some root := (grown.parent? 1).trans (by decide)
    have noElement : afterChange.element? root = none :=
      (grown.element? root (by decide)).trans (by decide)
    rw [parentElement?, above]
    exact noElement
  have below : afterChange.Listing (afterChange.children 1) [2] := by
    have leaf : afterChange.Listing (afterChange.children 2) [] := by
      rw [(grown.children 2).trans (by decide : _ = [])]
      exact .nil
    rw [(grown.children 1).trans (by decide : _ = [2])]
    exact .cons leaf .nil
  have parts : ⟨1, htmlData⟩ :: [2].filterMap afterChange.element? =
      [⟨1, htmlData⟩] ++ [⟨2, pragmaData "fr"⟩] := by
    have found := (grown.element? 2 (by decide)).trans
      (by decide : _ = some (⟨2, pragmaData "fr"⟩ : Element))
    rw [List.filterMap_cons_some found]
    rfl
  have isPragma : IsPragma ⟨2, pragmaData "fr"⟩ := ⟨rfl, rfl, "content-language", rfl, by decide⟩
  have names : NamesLanguage "fr" "fr" := ⟨by decide, by decide⟩
  have speaks : afterChange.Speaks ⟨1, htmlData⟩ (some "fr") :=
    .pragma silent atTop (.inr rfl)
      (.last below parts isPragma (List.forall_mem_nil _) rfl names)
  exact ⟨.empty true, lawful, here, ((language_after_run (.empty true) lawful here).1 _).2 speaks⟩

end Document

end Selectors
