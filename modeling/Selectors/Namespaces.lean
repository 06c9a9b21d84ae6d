/-!
Namespaces: the well-known ones, and the table of declarations under which selector text is read.
A namespace is named by a URL, and the empty text stands for "no namespace" wherever a selector
has to say so.
-/

namespace Selectors

/-- The namespace of HTML elements. -/
def htmlNamespace : String := "http://www.w3.org/1999/xhtml"

/-- The namespace of the attribute `xml:lang`. -/
def xmlNamespace : String := "http://www.w3.org/XML/1998/namespace"

/-- The declared namespaces: the one for type selectors without a separator, if any, and the
prefixes with their URLs, the latest declaration first. -/
structure Namespaces : Type where
  unprefixed? : Option String := none
  bindings : List (String × String) := []
deriving Inhabited

namespace Namespaces

/-- Declares a name. It hides an earlier declaration of the same name. -/
def declare (table : Namespaces) (name url : String) : Namespaces :=
  { table with bindings := (name, url) :: table.bindings }

/-- The URL that a name was last declared with. -/
def resolve? (table : Namespaces) (name : String) : Option String :=
  table.bindings.lookup name

end Namespaces

end Selectors
