import Selectors.Namespaces
import Selectors.Text

/-!
What an element carries: its local name, its namespace and its attributes.

The attributes form a map from a namespace and a name to a value that remembers the order in which
the names were first set: `getAttribute?_setAttribute` says what setting one changes.
-/

namespace Selectors

/-- An attribute. The empty namespace stands for none. -/
@[ext]
structure Attribute : Type where
  namespaceUrl : String
  name : String
  value : String
deriving DecidableEq, Repr

namespace Attribute

/-- The attribute has the given namespace and name. -/
def isNamed (a : Attribute) (namespaceUrl name : String) : Bool :=
  a.namespaceUrl == namespaceUrl && a.name == name

/-- Sets an attribute in a list: the value of the one with that name is replaced, and where there
is none a new one is added at the end. -/
def set (namespaceUrl name value : String) : List Attribute → List Attribute
  | [] => [⟨namespaceUrl, name, value⟩]
  | a :: rest =>
    if a.isNamed namespaceUrl name then { a with value := value } :: rest
    else a :: set namespaceUrl name value rest

/-- The value of the attribute with a name. -/
def get? (namespaceUrl name : String) (attributes : List Attribute) : Option String :=
  (attributes.find? (fun a => a.isNamed namespaceUrl name)).map Attribute.value

theorem isNamed_iff {a : Attribute} {namespaceUrl name : String} :
    a.isNamed namespaceUrl name = true ↔ a.namespaceUrl = namespaceUrl ∧ a.name = name := by
  simp [isNamed]

theorem isNamed_iff_eq {a : Attribute} {namespaceUrl name : String} :
    a.isNamed namespaceUrl name = true ↔ namespaceUrl = a.namespaceUrl ∧ name = a.name := by
  rw [isNamed_iff, eq_comm, eq_comm (a := a.name)]

theorem get?_cons (namespaceUrl name : String) (a : Attribute) (rest : List Attribute) :
    get? namespaceUrl name (a :: rest) =
      if a.isNamed namespaceUrl name then some a.value else get? namespaceUrl name rest := by
  rw [get?, List.find?_cons]
  cases a.isNamed namespaceUrl name <;> rfl

/-- Setting an attribute gives it the value and leaves all others alone. -/
theorem get?_set (namespaceUrl name value otherUrl other : String)
    (attributes : List Attribute) :
    get? otherUrl other (set namespaceUrl name value attributes) =
      if otherUrl = namespaceUrl ∧ other = name then some value
      else get? otherUrl other attributes := by
  induction attributes with
  | nil =>
    rw [set, get?_cons]
    simp only [isNamed_iff_eq]
  | cons a rest ih =>
    rw [set]
    by_cases here : a.isNamed namespaceUrl name = true
    · obtain ⟨rfl, rfl⟩ := isNamed_iff.1 here
      rw [if_pos here, get?_cons, get?_cons]
      simp only [isNamed_iff_eq]
      split
      · rfl
      · rfl
    · rw [if_neg here, get?_cons, get?_cons, ih]
      by_cases same : a.isNamed otherUrl other = true
      · obtain ⟨rfl, rfl⟩ := isNamed_iff.1 same
        rw [if_pos same, if_neg fun k => here (isNamed_iff.2 k), if_pos same]
      · rw [if_neg same, if_neg same]

end Attribute

/-- The data of an element. -/
structure ElementData : Type where
  name : String
  /-- Nothing for an element in no namespace. -/
  namespaceUrl? : Option String := none
  attributes : List Attribute := []
deriving DecidableEq, Repr

namespace ElementData

/-- The element with a name, in no namespace and without attributes. -/
def ofName (name : String) : ElementData := { name := name }

/-- The element moved into a namespace. -/
def inNamespace (e : ElementData) (namespaceUrl : String) : ElementData :=
  { e with namespaceUrl? := some namespaceUrl }

/-- The element with a name in the HTML namespace, without attributes. -/
def ofHtmlName (name : String) : ElementData := (ofName name).inNamespace htmlNamespace

/-- The element with an attribute set. -/
def setAttribute (e : ElementData) (namespaceUrl name value : String) : ElementData :=
  { e with attributes := Attribute.set namespaceUrl name value e.attributes }

/-- The element with an attribute in no namespace set. -/
def withAttribute (e : ElementData) (name value : String) : ElementData :=
  e.setAttribute "" name value

/-- The value of an attribute. The empty namespace stands for none. -/
def getAttribute? (e : ElementData) (namespaceUrl name : String) : Option String :=
  Attribute.get? namespaceUrl name e.attributes

/-- The namespace of an element, the empty text for none. -/
def namespaceUrl (e : ElementData) : String := e.namespaceUrl?.getD ""

/-- The identifier of an element: its attribute `id` in no namespace. -/
def id? (e : ElementData) : Option String := e.getAttribute? "" "id"

/-- The classes of an element: the words of its attribute `class` in no namespace. -/
def classes (e : ElementData) : List String := words ((e.getAttribute? "" "class").getD "")

/-- The element is in the HTML namespace. -/
def isHtml (e : ElementData) : Bool := e.namespaceUrl? == some htmlNamespace

/-- Two elements are of one type: their names and namespaces are equal, an empty namespace and none
being the same. -/
def sameType (e f : ElementData) : Bool :=
  e.name == f.name && e.namespaceUrl == f.namespaceUrl

theorem getAttribute?_setAttribute (e : ElementData)
    (namespaceUrl name value otherUrl other : String) :
    (e.setAttribute namespaceUrl name value).getAttribute? otherUrl other =
      if otherUrl = namespaceUrl ∧ other = name then some value
      else e.getAttribute? otherUrl other :=
  Attribute.get?_set ..

end ElementData

end Selectors
