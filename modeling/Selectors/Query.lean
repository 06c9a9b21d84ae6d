import Selectors.Compiled

/-!
Looking for elements. The root of a query limits which elements are returned, never how they
match: a selector may reach out to relatives beyond the root. A selector with a pseudo-element
means a part of an element and finds none.
-/

namespace Selectors

namespace Document

/-- Some of the selectors that mean whole elements accepts an element. -/
def matchesAny (doc : Document) (selectors : List Compiled) (e : Element) : Bool :=
  selectors.any fun c => c.pseudoElement?.isNone && !c.neverMatches && c.accepts doc e

/-- The elements in the subtree of a root that some selector accepts, in document order. -/
def queryAll (doc : Document) (top : Element) (selectors : List Compiled) : List Element :=
  (doc.subtree top).filter (doc.matchesAny selectors)

/-- The first element that a query finds. -/
def query? (doc : Document) (top : Element) (selectors : List Compiled) : Option Element :=
  (doc.queryAll top selectors).head?

end Document

end Selectors
