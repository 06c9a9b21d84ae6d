import Selectors.Description
import Selectors.Document
import Selectors.Json.Reader

/-!
Loading documents. An outline is placed in the arena node by node in document order, so that the
names of the nodes count them as they are written (`Outline.place`). `Document.load` reads a text
that describes an element and places it below the document node.
-/

namespace Selectors

mutual

/-- Places an outline behind the children of a node. -/
def Outline.place (parent : NodeId) : Outline → Document → Document
  | .text value, doc => doc.appendNew parent (.text value)
  | .comment value, doc => doc.appendNew parent (.comment value)
  | .element data children, doc =>
    Outline.placeAll doc.size children (doc.appendNew parent (.element data))

/-- Places outlines behind the children of a node, one after the other. -/
def Outline.placeAll (parent : NodeId) : List Outline → Document → Document
  | [], doc => doc
  | node :: rest, doc => Outline.placeAll parent rest (Outline.place parent node doc)

end

/-- How a text is made into a document. -/
structure LoadOptions : Type where
  /-- The document is HTML: its elements are in the HTML namespace unless they say otherwise. -/
  html : Bool := false
  /-- The language that comes with the document. -/
  transportLanguage? : Option String := none

/-- Why no document was made. -/
inductive LoadError : Type where
  /-- The text is not JSON, or holds more than one value. -/
  | malformed
  /-- The text is JSON and describes no node. -/
  | wrongShape
  | node (fault : NodeFault)
deriving DecidableEq, Repr

/-- The cause of an error as it is told on its own. -/
def LoadError.cause? : LoadError → Option String
  | .malformed => some "malformed JSON text"
  | .wrongShape => some "data did not match any variant of untagged enum JsonNode"
  | .node _ => none

/-- The message for an error. -/
def LoadError.message : LoadError → String
  | .node fault => "invalid document node: " ++ fault.message
  | e => "invalid document JSON: " ++ e.cause?.getD ""

namespace Document

/-- The document with the given outline below the document node. -/
def ofOutline (options : LoadOptions) (top : Outline) : Document :=
  top.place root ((empty options.html).setTransportLanguage options.transportLanguage?)

/-- The description that a text holds. A text that starts with a value of the wrong shape is of the
wrong shape, whatever follows. -/
def describe (source : String) : Except LoadError Description :=
  match Json.read? source with
  | none => .error .malformed
  | some (value, alone) =>
    match Description.ofJson? value with
    | none => .error .wrongShape
    | some description => if alone then .ok description else .error .malformed

/-- The document that a description makes, and the warnings about what was ignored in it. Warnings
that come before a fault stay. -/
def ofDescription (options : LoadOptions) (description : Description) :
    Except LoadError Document × List Warning :=
  match description with
  | .element _ _ =>
    let survey := description.outline options.html
    (match survey.result with
      | .ok top => .ok (ofOutline options top)
      | .error fault => .error (.node fault),
      survey.warnings)
  | _ => (.error (.node .rootNotElement), [])

/-- Makes a document from text. -/
def load (options : LoadOptions) (source : String) : Except LoadError Document × List Warning :=
  match describe source with
  | .error e => (.error e, [])
  | .ok description => ofDescription options description

end Document

end Selectors
