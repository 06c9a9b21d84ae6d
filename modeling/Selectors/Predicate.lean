import Selectors.AnPlusB
import Selectors.Document.Language

/-!
Predicates: tests of an element as plain data. They say what a compiled selector asks of an
element and its relatives, and hold no part of a document.

`Predicate.holds` evaluates a predicate at an element of a document. `holdsAll_eq` and
`holdsAny_eq` read the two lists of members as quantifiers.
-/

namespace Selectors

/-! ## Tests of values and positions -/

/-- A test of the value of an attribute. -/
inductive AttributeTest : Type where
  | present
  | equals (operand : String)
  | includes (operand : String)
  | dashMatch (operand : String)
  | startsWith (operand : String)
  | endsWith (operand : String)
  | contains (operand : String)
deriving DecidableEq, Repr

/-- Whether a value passes a test. -/
def AttributeTest.accepts (value : String) : AttributeTest → Bool
  | .present => true
  | .equals operand => value == operand
  | .includes operand => (words value).contains operand
  | .dashMatch operand => isDashExtension operand.toList value.toList
  | .startsWith operand => operand.toList.isPrefixOf value.toList
  | .endsWith operand => operand.toList.isSuffixOf value.toList
  | .contains operand => occursIn operand.toList value.toList

/-- Which siblings a counting pseudo-class counts. -/
inductive NthKind : Type where
  /-- Those in front. -/
  | child
  /-- Those behind. -/
  | lastChild
  /-- Those in front that are of the same type. -/
  | ofType
  /-- Those behind that are of the same type. -/
  | lastOfType
deriving DecidableEq, Repr

/-- How many siblings a counting pseudo-class counts for an element. -/
def Document.nthPosition (doc : Document) (e : Element) : NthKind → Nat
  | .child => doc.siblingIndex e
  | .lastChild => doc.siblingCount e - (doc.siblingIndex e + 1)
  | .ofType => ((doc.precedingElements e).filter fun s => e.data.sameType s.data).length
  | .lastOfType => ((doc.followingElements e).filter fun s => e.data.sameType s.data).length

/-- Another sibling than the one at the place of the element is of its type. -/
def Document.sharesType (doc : Document) (e : Element) : Bool :=
  (doc.siblings e).zipIdx.any fun (s, i) =>
    i != doc.siblingIndex e && e.data.sameType s.data

/-! ## Predicates -/

/-- A test of an element and its relatives. -/
inductive Predicate : Type where
  /-- Every member holds. -/
  | and (members : List Predicate)
  /-- Some member holds. -/
  | or (members : List Predicate)
  | not (inner : Predicate)
  | hasParent
  | hasPrevious
  /-- It holds for some ancestor. -/
  | ancestor (inner : Predicate)
  /-- There is a parent, and it holds for the parent. -/
  | parent (inner : Predicate)
  /-- There is an element just before, and it holds for that. -/
  | previous (inner : Predicate)
  /-- It holds for some element before. -/
  | precedingSibling (inner : Predicate)
  | typeName (name : String)
  /-- The element is in a namespace; the empty text is none. -/
  | inNamespace (url : String)
  | className (name : String)
  | id (value : String)
  /-- The attribute is there, and its value passes the test. -/
  | hasAttribute (namespaceUrl name : String) (test : AttributeTest)
  /-- The element is an HTML element with one of the names. -/
  | htmlElement (names : List String)
  /-- The element has no parent. -/
  | root
  | firstChild
  | lastChild
  | firstOfType
  | lastOfType
  | onlyChild
  | onlyOfType
  /-- The element has no content. -/
  | empty
  | lang (range : String)
  | nth (kind : NthKind) (position : AnPlusB)
deriving Inhabited

namespace Predicate

mutual

/-- Whether a predicate holds for an element of a document. -/
def holds (doc : Document) : Predicate → Element → Bool
  | .and members, e => holdsAll doc members e
  | .or members, e => holdsAny doc members e
  | .not inner, e => !inner.holds doc e
  | .hasParent, e => (doc.parentElement? e).isSome
  | .hasPrevious, e => (doc.previousElement? e).isSome
  | .ancestor inner, e => (doc.ancestorElements e).any (inner.holds doc)
  | .parent inner, e => (doc.parentElement? e).any (inner.holds doc)
  | .previous inner, e => (doc.previousElement? e).any (inner.holds doc)
  | .precedingSibling inner, e => (doc.precedingElements e).any (inner.holds doc)
  | .typeName name, e => e.data.name == name
  | .inNamespace url, e => e.data.namespaceUrl == url
  | .className name, e => e.data.classes.contains name
  | .id value, e => e.data.id? == some value
  | .hasAttribute namespaceUrl name test, e =>
    (e.data.getAttribute? namespaceUrl name).any fun value => test.accepts value
  | .htmlElement names, e => e.data.isHtml && names.contains e.data.name
  | .root, e => (doc.parentElement? e).isNone
  | .firstChild, e => doc.siblingIndex e == 0
  | .lastChild, e => doc.siblingIndex e + 1 == doc.siblingCount e
  | .firstOfType, e => !(doc.precedingElements e).any fun s => e.data.sameType s.data
  | .lastOfType, e => (doc.followingElements e).all fun s => !e.data.sameType s.data
  | .onlyChild, e => doc.siblingCount e == 1
  | .onlyOfType, e => !doc.sharesType e
  | .empty, e => !doc.hasContent e
  | .lang range, e => doc.speaks e range
  | .nth kind position, e => position.selects (doc.nthPosition e kind)

/-- Whether every one of several predicates holds. -/
def holdsAll (doc : Document) : List Predicate → Element → Bool
  | [], _ => true
  | p :: rest, e => p.holds doc e && holdsAll doc rest e

/-- Whether some one of several predicates holds. -/
def holdsAny (doc : Document) : List Predicate → Element → Bool
  | [], _ => false
  | p :: rest, e => p.holds doc e || holdsAny doc rest e

end

theorem holdsAll_eq (doc : Document) (members : List Predicate) (e : Element) :
    holdsAll doc members e = members.all fun p => p.holds doc e := by
  induction members with
  | nil => simp [holdsAll]
  | cons p rest ih => simp [holdsAll, ih]

theorem holdsAny_eq (doc : Document) (members : List Predicate) (e : Element) :
    holdsAny doc members e = members.any fun p => p.holds doc e := by
  induction members with
  | nil => simp [holdsAny]
  | cons p rest ih => simp [holdsAny, ih]

end Predicate

end Selectors
