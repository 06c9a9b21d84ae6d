import Selectors.Document.Language
import Selectors.Proofs.Relatives
import Selectors.Proofs.Text
import Selectors.Proofs.TreeOrder

/-!
The language of an element as rules, with no walk and nothing remembered. `Document.Speaks` gives an
answer to every element: what it declares, else the answer of its parent, else at the top what the
last pragma in its subtree names, else what came with the document, else nothing.

`Document.language?` gives this answer (`speaks_iff`) as long as what the document remembers is what
would be found (`Truthful`). The cases of the rules are those of `language?_eq`, which goes up one
parent at a time.
-/

namespace Selectors

/-- A header or a pragma with this value names the language: there is no comma in the value, and the
language is its only word. -/
def NamesLanguage (value language : String) : Prop :=
  ',' ∉ value.toList ∧ words value = [language]

theorem contentLanguage?_eq_some_iff {value language : String} :
    contentLanguage? value = some language ↔ NamesLanguage value language := by
  unfold contentLanguage? NamesLanguage
  by_cases comma : ',' ∈ value.toList
  · simp [comma]
  · rw [if_neg (by simpa using comma), and_iff_right comma]
    constructor
    · intro named
      split at named
      · rename_i only listed
        rw [listed, Option.some.inj named]
      · cases named
    · intro listed
      rw [listed]

namespace Document

variable {doc doc' : Document} {e d p top : Element} {language : String} {answer : Option String}

/-! ## Rules -/

/-- The attribute `lang` and pragmas count for an element: the document is HTML, or the element is
in the HTML namespace. -/
def HonorsHtml (doc : Document) (e : Element) : Prop :=
  doc.html = true ∨ e.data.namespaceUrl? = some htmlNamespace

/-- An element declares its language: by the attribute in the XML namespace, or where there is none
by the one in no namespace. -/
inductive Declares (doc : Document) (e : Element) (language : String) : Prop
  | xml : e.data.getAttribute? xmlNamespace "lang" = some language → Declares doc e language
  | html : e.data.getAttribute? xmlNamespace "lang" = none → doc.HonorsHtml e →
    e.data.getAttribute? "" "lang" = some language → Declares doc e language

/-- An HTML `meta` element that stands for a header `Content-Language`. -/
structure IsPragma (e : Element) : Prop where
  isHtml : e.data.namespaceUrl? = some htmlNamespace
  isMeta : e.data.name = "meta"
  header : ∃ value, e.data.getAttribute? "" "http-equiv" = some value ∧
    value.toList.map Char.toLower = "content-language".toList

/-- The last pragma in tree order among an element and those below it names a language. -/
inductive PragmaNames (doc : Document) (top : Element) (language : String) : Prop
  | last {below : List NodeId} {front back : List Element} {pragma : Element} {value : String} :
    doc.Listing (doc.children top.id) below →
    top :: below.filterMap doc.element? = front ++ pragma :: back →
    IsPragma pragma → (∀ f ∈ back, ¬ IsPragma f) →
    pragma.data.getAttribute? "" "content" = some value → NamesLanguage value language →
    PragmaNames doc top language

/-- The language of an element, or that it has none. -/
inductive Speaks (doc : Document) : Element → Option String → Prop
  | declared {e : Element} {language : String} :
    doc.Declares e language → Speaks doc e (some language)
  | inherited {e p : Element} {answer : Option String} :
    (∀ language, ¬ doc.Declares e language) → doc.parentElement? e = some p →
    Speaks doc p answer → Speaks doc e answer
  | pragma {e : Element} {language : String} :
    (∀ language, ¬ doc.Declares e language) → doc.parentElement? e = none →
    doc.HonorsHtml e → doc.PragmaNames e language → Speaks doc e (some language)
  | transport {e : Element} {value language : String} :
    (∀ language, ¬ doc.Declares e language) → doc.parentElement? e = none →
    (doc.HonorsHtml e → ∀ language, ¬ doc.PragmaNames e language) →
    doc.transportLanguage? = some value → NamesLanguage value language →
    Speaks doc e (some language)
  | unknown {e : Element} :
    (∀ language, ¬ doc.Declares e language) → doc.parentElement? e = none →
    (doc.HonorsHtml e → ∀ language, ¬ doc.PragmaNames e language) →
    (∀ value language, doc.transportLanguage? = some value → ¬ NamesLanguage value language) →
    Speaks doc e none

/-! ## What the single tests say -/

theorem honorsHtml_iff : doc.honorsHtml e = true ↔ doc.HonorsHtml e := by
  unfold honorsHtml HonorsHtml ElementData.isHtml
  rw [Bool.or_eq_true, beq_iff_eq]

theorem declaredLanguage?_eq_some_iff :
    doc.declaredLanguage? e = some language ↔ doc.Declares e language := by
  unfold declaredLanguage?
  cases xml : e.data.getAttribute? xmlNamespace "lang" with
  | some written =>
    constructor
    · intro same
      exact .xml (xml.trans same)
    · rintro (found | ⟨none, _, _⟩)
      · exact xml.symm.trans found
      · rw [xml] at none
        cases none
  | none =>
    rw [Option.ite_none_right_eq_some, honorsHtml_iff]
    constructor
    · rintro ⟨honored, found⟩
      exact .html xml honored found
    · rintro (found | ⟨_, honored, found⟩)
      · rw [xml] at found
        cases found
      · exact ⟨honored, found⟩

theorem declaredLanguage?_eq_none_iff :
    doc.declaredLanguage? e = none ↔ ∀ language, ¬ doc.Declares e language := by
  rw [Option.eq_none_iff_forall_ne_some]
  exact forall_congr' fun _ => not_congr declaredLanguage?_eq_some_iff

theorem isLanguagePragma_iff : isLanguagePragma e = true ↔ IsPragma e := by
  have lower : "content-language".toList.map Char.toLower = "content-language".toList := by decide
  unfold isLanguagePragma ElementData.isHtml
  rw [Bool.and_eq_true, Bool.and_eq_true, beq_iff_eq, beq_iff_eq, Option.any_eq_true]
  simp only [sameIgnoringCase_iff, lower]
  constructor
  · rintro ⟨⟨isHtml, isMeta⟩, header⟩
    exact ⟨isHtml, isMeta, header⟩
  · rintro ⟨isHtml, isMeta, header⟩
    exact ⟨⟨isHtml, isMeta⟩, header⟩

/-- The last pragma of a subtree is the one behind which none follows. -/
theorem getLast?_filter_isLanguagePragma_iff {es : List Element} {pragma : Element} :
    (es.filter isLanguagePragma).getLast? = some pragma ↔
      IsPragma pragma ∧ ∃ front back, es = front ++ pragma :: back ∧ ∀ f ∈ back, ¬ IsPragma f := by
  rw [List.getLast?_filter, List.find?_eq_some_iff_append, isLanguagePragma_iff]
  refine and_congr_right fun _ => ?_
  constructor
  · rintro ⟨back, front, parts, clear⟩
    refine ⟨front.reverse, back.reverse, ?_, ?_⟩
    · rw [← List.reverse_reverse es, parts]
      simp
    · intro f member isPragma
      have notPragma := clear f (List.mem_reverse.1 member)
      rw [isLanguagePragma_iff.2 isPragma] at notPragma
      cases notPragma
  · rintro ⟨front, back, parts, clear⟩
    refine ⟨back.reverse, front.reverse, ?_, ?_⟩
    · rw [parts]
      simp
    · intro f member
      rw [Bool.not_eq_true', Bool.eq_false_iff, Ne, isLanguagePragma_iff]
      exact clear f (List.mem_reverse.1 member)

section Pragmas

variable (closed : doc.Closed) (loopless : doc.Loopless)
include closed loopless

theorem pragmaLanguage?_eq_some_iff :
    doc.pragmaLanguage? top = some language ↔ doc.PragmaNames top language := by
  have listing := listing_descendants closed loopless top.id
  unfold pragmaLanguage?
  constructor
  · intro found
    split at found
    · rename_i pragma atEnd
      obtain ⟨isPragma, front, back, parts, clear⟩ := getLast?_filter_isLanguagePragma_iff.1 atEnd
      obtain ⟨value, content, named⟩ := Option.bind_eq_some_iff.1 found
      exact .last listing parts isPragma clear content (contentLanguage?_eq_some_iff.1 named)
    · cases found
  · rintro ⟨below, parts, isPragma, clear, content, named⟩
    rw [← listing.unique below] at parts
    have atEnd : ((doc.subtree top).filter isLanguagePragma).getLast? = some _ :=
      getLast?_filter_isLanguagePragma_iff.2 ⟨isPragma, _, _, parts, clear⟩
    rw [atEnd]
    exact Option.bind_eq_some_iff.2 ⟨_, content, contentLanguage?_eq_some_iff.2 named⟩

end Pragmas

/-! ## Going up -/

/-- What the document remembers, if anything, is the language that the pragmas under the document
element set. -/
def Truthful (doc : Document) : Prop :=
  ∀ answer, doc.pragma? = some answer →
    ∃ d, doc.documentElement? = some d ∧ doc.pragmaLanguage? d = answer

theorem has_of_documentElement? (found : doc.documentElement? = some d) : doc.Has d := by
  obtain ⟨id, -, found⟩ := List.exists_of_findSome?_eq_some found
  exact (element?_eq_some_iff.1 found).2

/-- The document element is told by its node. -/
theorem documentElement?_of_isDocumentElement (here : doc.Has top)
    (isTop : doc.isDocumentElement top = true) : doc.documentElement? = some top := by
  obtain ⟨d, found, same⟩ := (Option.any_eq_true _ _).1 isTop
  rw [found, (has_of_documentElement? found).eq_of_id_eq here (beq_iff_eq.1 same)]

theorem rememberedPragma?_eq (truthful : doc.Truthful) (here : doc.Has top) :
    doc.rememberedPragma? top = doc.pragmaLanguage? top := by
  unfold rememberedPragma?
  split
  · rename_i isTop
    cases remembered : doc.pragma? with
    | none => rfl
    | some answer =>
      obtain ⟨d, found, fresh⟩ := truthful answer remembered
      rw [documentElement?_of_isDocumentElement here isTop] at found
      rw [Option.getD_some, Option.some.inj found, fresh]
  · rfl

/-- What is left at the top: a pragma, where pragmas count, goes before what came with the
document. -/
theorem fallbackLanguage?_eq (truthful : doc.Truthful) (here : doc.Has e) :
    doc.fallbackLanguage? e = (if doc.honorsHtml e then doc.pragmaLanguage? e else none).or
      (doc.transportLanguage?.bind contentLanguage?) := by
  rw [fallbackLanguage?, rememberedPragma?_eq truthful here]

section Up

variable (closed : doc.Closed) (loopless : doc.Loopless)
include closed loopless

theorem lineage_eq (e : Element) :
    doc.lineage e = e :: (doc.parentElement? e).elim [] doc.lineage := by
  rw [lineage, ancestorElements_eq loopless.parents closed.parent_lt]
  rfl

theorem inheritedLanguage?_eq (e : Element) :
    doc.inheritedLanguage? e =
      (doc.declaredLanguage? e).or ((doc.parentElement? e).bind doc.inheritedLanguage?) := by
  unfold inheritedLanguage?
  rw [lineage_eq closed loopless, List.findSome?_cons]
  cases doc.declaredLanguage? e with
  | some language => rfl
  | none => cases doc.parentElement? e <;> rfl

theorem topElement_eq (e : Element) :
    doc.topElement e = (doc.parentElement? e).elim e doc.topElement := by
  have atEnd (f : Element) : (doc.lineage f).getLast? = some (doc.topElement f) :=
    List.getLast?_eq_some_getLast _
  apply Option.some.inj
  rw [← atEnd, lineage_eq closed loopless, List.getLast?_cons]
  cases doc.parentElement? e with
  | none => rfl
  | some p => rw [Option.elim_some, Option.elim_some, atEnd, Option.getD_some]

/-- The language of an element is the one it declares, or the language of its parent, or at the top
the one to fall back to. -/
theorem language?_eq (e : Element) :
    doc.language? e = (doc.declaredLanguage? e).or
      ((doc.parentElement? e).elim (doc.fallbackLanguage? e) doc.language?) := by
  unfold language?
  rw [inheritedLanguage?_eq closed loopless, topElement_eq closed loopless]
  cases doc.parentElement? e with
  | none => rw [Option.bind_none, Option.or_none, Option.elim_none, Option.elim_none]
  | some p => rw [Option.bind_some, Option.elim_some, Option.elim_some, Option.or_assoc]

/-! ## The rules and the walk agree -/

theorem honoredPragma_eq_some_iff :
    (if doc.honorsHtml e then doc.pragmaLanguage? e else none) = some language ↔
      doc.HonorsHtml e ∧ doc.PragmaNames e language := by
  rw [Option.ite_none_right_eq_some, honorsHtml_iff, pragmaLanguage?_eq_some_iff closed loopless]

theorem honoredPragma_eq_none_iff :
    (if doc.honorsHtml e then doc.pragmaLanguage? e else none) = none ↔
      (doc.HonorsHtml e → ∀ language, ¬ doc.PragmaNames e language) := by
  rw [Option.eq_none_iff_forall_ne_some, forall_comm]
  refine forall_congr' fun language => ?_
  rw [Ne, honoredPragma_eq_some_iff closed loopless, not_and]

variable (truthful : doc.Truthful) (here : doc.Has e)
include truthful here

theorem speaks_fallbackLanguage? (silent : ∀ language, ¬ doc.Declares e language)
    (atTop : doc.parentElement? e = none) : doc.Speaks e (doc.fallbackLanguage? e) := by
  rw [fallbackLanguage?_eq truthful here]
  cases chosen : if doc.honorsHtml e then doc.pragmaLanguage? e else none with
  | some language =>
    obtain ⟨honored, names⟩ := (honoredPragma_eq_some_iff closed loopless).1 chosen
    exact .pragma silent atTop honored names
  | none =>
    have noPragma := (honoredPragma_eq_none_iff closed loopless).1 chosen
    rw [Option.none_or]
    cases sent : doc.transportLanguage?.bind contentLanguage? with
    | some language =>
      obtain ⟨value, transport, names⟩ := Option.bind_eq_some_iff.1 sent
      exact .transport silent atTop noPragma transport (contentLanguage?_eq_some_iff.1 names)
    | none =>
      refine .unknown silent atTop noPragma fun value language transport names => ?_
      rw [transport, Option.bind_some, contentLanguage?_eq_some_iff.2 names] at sent
      cases sent

/-- The answer of the walk is one of the rules. -/
theorem speaks_language? : doc.Speaks e (doc.language? e) := by
  revert here
  refine induction_up (motive := fun e => doc.Has e → doc.Speaks e (doc.language? e))
    loopless.parents closed.parent_lt (fun e ih here => ?_) e
  rw [language?_eq closed loopless]
  cases declared : doc.declaredLanguage? e with
  | some language => exact .declared (declaredLanguage?_eq_some_iff.1 declared)
  | none =>
    have silent := declaredLanguage?_eq_none_iff.1 declared
    cases above : doc.parentElement? e with
    | none => exact speaks_fallbackLanguage? closed loopless truthful here silent above
    | some p => exact .inherited silent above (ih p above (parentElement?_eq_some_iff.1 above).2)

/-- The rules leave no other answer. -/
theorem language?_of_speaks (speaks : doc.Speaks e answer) : doc.language? e = answer := by
  have step := language?_eq closed loopless
  have atTheTop {e : Element} (here : doc.Has e) (silent : ∀ language, ¬ doc.Declares e language)
      (atTop : doc.parentElement? e = none) :
      doc.language? e = (if doc.honorsHtml e then doc.pragmaLanguage? e else none).or
        (doc.transportLanguage?.bind contentLanguage?) := by
    rw [step, declaredLanguage?_eq_none_iff.2 silent, atTop, Option.none_or, Option.elim_none,
      fallbackLanguage?_eq truthful here]
  induction speaks with
  | declared declares => rw [step, declaredLanguage?_eq_some_iff.2 declares, Option.some_or]
  | inherited silent above _ ih =>
    rw [step, declaredLanguage?_eq_none_iff.2 silent, above]
    exact ih (parentElement?_eq_some_iff.1 above).2
  | pragma silent atTop honored names =>
    rw [atTheTop here silent atTop,
      (honoredPragma_eq_some_iff closed loopless).2 ⟨honored, names⟩, Option.some_or]
  | transport silent atTop noPragma sent names =>
    rw [atTheTop here silent atTop, (honoredPragma_eq_none_iff closed loopless).2 noPragma, sent]
    exact contentLanguage?_eq_some_iff.2 names
  | unknown silent atTop noPragma noTransport =>
    rw [atTheTop here silent atTop, (honoredPragma_eq_none_iff closed loopless).2 noPragma,
      Option.none_or, Option.eq_none_iff_forall_ne_some]
    intro language named
    obtain ⟨value, sent, names⟩ := Option.bind_eq_some_iff.1 named
    exact noTransport value language sent (contentLanguage?_eq_some_iff.1 names)

/-- The rules and the walk give one answer. -/
theorem speaks_iff : doc.Speaks e answer ↔ doc.language? e = answer :=
  ⟨language?_of_speaks closed loopless truthful here,
    fun same => same ▸ speaks_language? closed loopless truthful here⟩

end Up

end Document

end Selectors
