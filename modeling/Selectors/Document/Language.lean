import Selectors.Document.Navigation

/-!
The language of an element. The nearest of the element and its ancestors that declares a language
decides. If none does, the language that the last content-language pragma below the topmost
ancestor sets is taken, where pragmas count; and failing that, the language that came with the
document.

The pragma of the document element is looked for once and remembered (`Document.remember`), until a
change to the tree makes the document forget it. `Document.language?` answers from the memory
where there is one.
-/

namespace Selectors

/-- The one language that a header or a pragma names: its only word, if it has no comma. -/
def contentLanguage? (value : String) : Option String :=
  if value.toList.contains ',' then none
  else
    match words value with
    | [language] => some language
    | _ => none

namespace Document

/-- The attribute `lang` and pragmas count for an element: the document is HTML, or the element is. -/
def honorsHtml (doc : Document) (e : Element) : Bool := doc.html || e.data.isHtml

/-- The language that an element itself declares. The attribute in the XML namespace goes before
the one in no namespace. -/
def declaredLanguage? (doc : Document) (e : Element) : Option String :=
  match e.data.getAttribute? xmlNamespace "lang" with
  | some language => some language
  | none => if doc.honorsHtml e then e.data.getAttribute? "" "lang" else none

/-- An element is a content-language pragma. -/
def isLanguagePragma (e : Element) : Bool :=
  e.data.isHtml && e.data.name == "meta" &&
    (e.data.getAttribute? "" "http-equiv").any (fun value =>
      sameIgnoringCase value "content-language")

/-- The language set by the pragmas in a subtree. Only the last pragma counts, even if it sets no
language. -/
def pragmaLanguage? (doc : Document) (top : Element) : Option String :=
  match ((doc.subtree top).filter isLanguagePragma).getLast? with
  | some pragma => (pragma.data.getAttribute? "" "content").bind contentLanguage?
  | none => none

/-- An element followed by its ancestors. -/
def lineage (doc : Document) (e : Element) : List Element := e :: doc.ancestorElements e

/-- The topmost ancestor of an element, the element itself if it has no parent. -/
def topElement (doc : Document) (e : Element) : Element :=
  (doc.lineage e).getLast (List.cons_ne_nil _ _)

/-- The language declared nearest to an element. -/
def inheritedLanguage? (doc : Document) (e : Element) : Option String :=
  (doc.lineage e).findSome? doc.declaredLanguage?

/-- The element at the top of a tree is the document element, whose pragma is remembered. -/
def isDocumentElement (doc : Document) (e : Element) : Bool :=
  doc.documentElement?.any fun d => d.id == e.id

/-- The language set by the pragmas under a topmost element, from the memory where there is one. -/
def rememberedPragma? (doc : Document) (top : Element) : Option String :=
  if doc.isDocumentElement top then doc.pragma?.getD (doc.pragmaLanguage? top)
  else doc.pragmaLanguage? top

/-- The language of an element where neither it nor an ancestor declares one. -/
def fallbackLanguage? (doc : Document) (top : Element) : Option String :=
  (if doc.honorsHtml top then doc.rememberedPragma? top else none).or
    (doc.transportLanguage?.bind contentLanguage?)

/-- The language of an element, if it is known. -/
def language? (doc : Document) (e : Element) : Option String :=
  (doc.inheritedLanguage? e).or (doc.fallbackLanguage? (doc.topElement e))

/-- The document after the language of an element was asked for: if the answer hung on the pragma
of the document element, that is now remembered. -/
def remember (doc : Document) (e : Element) : Document :=
  let top := doc.topElement e
  if (doc.inheritedLanguage? e).isNone && doc.honorsHtml top && doc.isDocumentElement top then
    { doc with pragma? := some (doc.rememberedPragma? top) }
  else doc

/-- The language of an element, and the document that remembers what was found out. -/
def askLanguage (doc : Document) (e : Element) : Option String × Document :=
  (doc.language? e, doc.remember e)

/-- A language range covers a language: the two are equal, or the language goes on with a hyphen.
Upper and lower case differ. -/
def speaks (doc : Document) (e : Element) (range : String) : Bool :=
  (doc.language? e).any fun language => isDashExtension range.toList language.toList

end Document

end Selectors
