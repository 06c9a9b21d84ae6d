import Selectors.Json
import Selectors.Document.Element
import Selectors.Warnings

/-!
Descriptions of documents. A description is what a text says before any name is looked at: texts,
comments, and elements with a name, an optional namespace, attributes and children.
`Description.ofJson?` reads one from a JSON value.

An `Outline` is a description with every name taken apart. Names may carry their namespace in
front, in braces (`splitName`). `Description.outline` makes the outline or finds the first broken
name; either way it tells which members of the described elements were ignored.
-/

namespace Selectors

/-- What is said about an element itself. -/
structure ElementHead : Type where
  name : String
  namespaceUrl? : Option String
  /-- The attributes as written, in order and with repeated keys. -/
  attributes : List (String × String)
  /-- The keys of the members that mean nothing, as written. -/
  ignored : List String
deriving DecidableEq, Repr

/-- A node of a document as described. -/
inductive Description : Type where
  | text (text : String)
  | comment (text : String)
  | element (head : ElementHead) (children : List Description)

/-! ## From JSON -/

namespace Description

/-- What has been found of an element among the members of an object; nothing for what has not been
found yet. -/
structure Members : Type where
  name? : Option String := none
  namespaceUrl? : Option (Option String) := none
  attributes? : Option (List (String × String)) := none
  children? : Option (List Description) := none
  /-- The other keys, the last one first. -/
  others : List String := []

/-- Members whose values are all strings. -/
def strings? : List (String × Json) → Option (List (String × String))
  | [] => some []
  | (key, .string value) :: rest => (strings? rest).map ((key, value) :: ·)
  | _ => none

/-- The comment that an object is, if it is one: it has exactly one member `comment`, a string. -/
def comment? (members : List (String × Json)) : Option Description :=
  match members.filter (fun member => member.1 == "comment") with
  | [(_, .string value)] => some (.comment value)
  | _ => none

/-- The element described by the members that were found, if they give a name. -/
def Members.element? (m : Members) : Option Description :=
  m.name?.map fun name =>
    .element
      { name := name
        namespaceUrl? := m.namespaceUrl?.join
        attributes := m.attributes?.getD []
        ignored := m.others.reverse }
      (m.children?.getD [])

mutual

/-- The node that a JSON value describes. A string is a text. An object is an element, or failing
that a comment. -/
def ofJson? : Json → Option Description
  | .string value => some (.text value)
  | .object members => ((elementMembers? {} members).bind Members.element?).or (comment? members)
  | _ => none

/-- The nodes that the items of an array describe, if every item describes one. -/
def ofItems? : List Json → Option (List Description)
  | [] => some []
  | item :: rest =>
    match ofJson? item, ofItems? rest with
    | some node, some nodes => some (node :: nodes)
    | _, _ => none

/-- Goes through the members of an object. None of the four keys with a meaning may be repeated. -/
def elementMembers? (found : Members) : List (String × Json) → Option Members
  | [] => some found
  | ("name", value) :: rest =>
    match found.name?, value with
    | none, .string name => elementMembers? { found with name? := some name } rest
    | _, _ => none
  | ("namespace", value) :: rest =>
    match found.namespaceUrl?, value with
    | none, .string url => elementMembers? { found with namespaceUrl? := some (some url) } rest
    | none, .null => elementMembers? { found with namespaceUrl? := some none } rest
    | _, _ => none
  | ("attributes", value) :: rest =>
    match found.attributes?, value with
    | none, .object members =>
      match strings? members with
      | some attributes => elementMembers? { found with attributes? := some attributes } rest
      | none => none
    | _, _ => none
  | ("children", value) :: rest =>
    match found.children?, value with
    | none, .array items =>
      match ofItems? items with
      | some children => elementMembers? { found with children? := some children } rest
      | none => none
    | _, _ => none
  | (key, _) :: rest => elementMembers? { found with others := key :: found.others } rest

end

end Description

/-! ## Names with namespaces -/

/-- What can be wrong with a described document whose text is well formed. -/
inductive NodeFault : Type where
  /-- The description is not one of an element. -/
  | rootNotElement
  /-- A name opens a brace and does not close it. -/
  | unterminatedNamespace (name : String)
  /-- Nothing follows the namespace of a name. -/
  | missingLocalName (name : String)
deriving DecidableEq, Repr

/-- The message for a fault. -/
def NodeFault.message : NodeFault → String
  | .rootNotElement => "document root must be an element"
  | .unterminatedNamespace name => "unterminated namespace in '" ++ name ++ "'"
  | .missingLocalName name => "missing local name in '" ++ name ++ "'"

/-- Takes a name apart into a namespace, empty for none, and a local name. A name that starts with
a brace has its namespace before the first closing brace; its local name is not empty. -/
def splitName (name : String) : Except NodeFault (String × String) :=
  match name.toList with
  | '\x7b' :: rest =>
    match rest.dropWhile (· != '\x7d') with
    | [] => .error (.unterminatedNamespace name)
    | _ :: [] => .error (.missingLocalName name)
    | _ :: rest' => .ok (String.ofList (rest.takeWhile (· != '\x7d')), String.ofList rest')
  | _ => .ok ("", name)

/-! ## Order of keys -/

/-- Puts a value under a key into a list that is sorted by key. It replaces a value that is there
under the same key. -/
def insertByKey {α : Type} (key : String) (value : α) : List (String × α) → List (String × α)
  | [] => [(key, value)]
  | (k, v) :: rest =>
    if key = k then (key, value) :: rest
    else if key < k then (key, value) :: (k, v) :: rest
    else (k, v) :: insertByKey key value rest

/-- A list of values sorted by key, where the last of several values under one key stays. -/
def byKey {α : Type} (entries : List (String × α)) : List (String × α) :=
  entries.foldl (fun sorted entry => insertByKey entry.1 entry.2 sorted) []

/-! ## Outlines -/

/-- A node of a document with its names taken apart. -/
inductive Outline : Type where
  | text (text : String)
  | comment (text : String)
  | element (data : ElementData) (children : List Outline)

/-- Something that goes through a description: what it comes to, or the fault it stopped at, and the
warnings about what it passed. -/
structure Survey (α : Type) : Type where
  result : Except NodeFault α
  warnings : List Warning

/-- The warnings about the ignored members of an element, in the order of their keys. -/
def ElementHead.warnings (head : ElementHead) : List Warning :=
  (byKey (head.ignored.map fun key => (key, ()))).map fun entry =>
    ⟨"DOM", "ignoring unknown element field '" ++ entry.1 ++ "'"⟩

/-- Sets the described attributes in the given order. -/
def setAttributes (data : ElementData) :
    List (String × String) → Except NodeFault ElementData
  | [] => .ok data
  | (key, value) :: rest =>
    match splitName key with
    | .error fault => .error fault
    | .ok (url, name) => setAttributes (data.setAttribute url name value) rest

/-- The namespace of a described element: the one it is given, or the one in its name, or in an HTML
document the HTML namespace. An empty one is none. -/
def elementNamespace? (html : Bool) (given : Option String) (written : String) :
    Option String :=
  let url :=
    match given with
    | some url => url
    | none => if written = "" then (if html then htmlNamespace else "") else written
  if url = "" then none else some url

/-- The data of a described element. Its name is taken apart first, then the keys of its attributes
in order. -/
def ElementHead.data (head : ElementHead) (html : Bool) : Except NodeFault ElementData :=
  match splitName head.name with
  | .error fault => .error fault
  | .ok (url, name) =>
    setAttributes { name := name, namespaceUrl? := elementNamespace? html head.namespaceUrl? url }
      (byKey head.attributes)

namespace Description

mutual

/-- The outline of a described node. The members of an element that mean nothing are warned about
before its names are taken apart, and its names come before its children. -/
def outline (html : Bool) : Description → Survey Outline
  | .text value => ⟨.ok (.text value), []⟩
  | .comment value => ⟨.ok (.comment value), []⟩
  | .element head children =>
    match head.data html with
    | .error fault => ⟨.error fault, head.warnings⟩
    | .ok data =>
      let inside := outlines html children
      ⟨inside.result.map (.element data), head.warnings ++ inside.warnings⟩

/-- The outlines of described nodes, up to the first fault. -/
def outlines (html : Bool) : List Description → Survey (List Outline)
  | [] => ⟨.ok [], []⟩
  | node :: rest =>
    let first := outline html node
    match first.result with
    | .error fault => ⟨.error fault, first.warnings⟩
    | .ok node =>
      let others := outlines html rest
      ⟨others.result.map (node :: ·), first.warnings ++ others.warnings⟩

end

end Description

end Selectors
