import Selectors.Compiled
import Selectors.Proofs.Meaning
import Selectors.Proofs.Text
import Selectors.Proofs.Walks

/-!
Matchers mean what their selectors mean. Compiling folds constants and reads a chain from its
subject outwards; `Compiled.accepts_iff_witnessed` says that the result accepts an element exactly
if the chain has witnesses that end in it.

The proof follows the tree: a lemma for each kind of simple selector, `Simple.accepts_iff_holds` by
recursion through the negations, `Combinator.accepts_relation` for one combinator and whatever the
matcher of the relative folded to, and an induction on the chain.
-/

namespace Selectors

variable {doc : Document} {e : Element}

/-! ## Attributes -/

theorem Matcher.accepts_hasAttribute {url name : String} {t : AttributeTest} :
    (Matcher.test (.hasAttribute url name t)).accepts doc e = true ↔
      ∃ value, e.data.getAttribute? url name = some value ∧ t.accepts value = true := by
  rw [Matcher.accepts, Predicate.holds, Option.any_eq_true]

/-- A matcher that is given up where its operand is bad. -/
theorem Matcher.accepts_unless {bad : Bool} {m : Matcher} :
    Matcher.accepts doc e (if bad then .never else m) = true ↔
      bad = false ∧ m.accepts doc e = true := by
  cases bad <;> simp [Matcher.accepts]

/-- The three tests of a piece of the value, which no value passes if the piece is empty. -/
theorem Matcher.accepts_piece {url name operand : String} {t : AttributeTest} :
    Matcher.accepts doc e (if operand.isEmpty then .never else .test (.hasAttribute url name t)) =
        true ↔
      ∃ value, e.data.getAttribute? url name = some value ∧ operand ≠ "" ∧
        t.accepts value = true := by
  rw [Matcher.accepts_unless, Matcher.accepts_hasAttribute, Bool.eq_false_iff, Ne,
    String.isEmpty_iff]
  constructor
  · rintro ⟨nonempty, value, found, passed⟩
    exact ⟨value, found, nonempty, passed⟩
  · rintro ⟨value, found, nonempty, passed⟩
    exact ⟨nonempty, value, found, passed⟩

/-- An operand that makes `~=` a test that never passes is no word of any value. -/
theorem isWordLike_of_mem_words {value operand : String} (h : operand ∈ words value) :
    (operand.isEmpty || operand.toList.any isBlank) = false := by
  rw [Bool.or_eq_false_iff, Bool.eq_false_iff, Bool.eq_false_iff, Ne, String.isEmpty_iff]
  constructor
  · rintro rfl
    exact empty_notMem_words value h
  · intro blank
    exact notMem_words_of_any_isBlank blank h

theorem AttributeSelector.holds_some_iff {url name operand : String} {o : AttributeOperator} :
    AttributeSelector.Holds ⟨some url, name, some o, operand⟩ e ↔
      ∃ value, e.data.getAttribute? url name = some value ∧ o.Relates value operand := by
  simp [AttributeSelector.Holds]

theorem AttributeSelector.accepts_iff_holds {a : AttributeSelector} {m : Matcher}
    (h : a.matcher = .ok m) : m.accepts doc e = true ↔ a.Holds e := by
  rcases a with ⟨url?, name, operator?, operand⟩
  cases url? with
  | none => cases h
  | some url =>
    cases operator? with
    | none =>
      cases h
      simp [Matcher.accepts_hasAttribute, AttributeSelector.Holds, AttributeTest.accepts]
    | some o =>
      rw [AttributeSelector.holds_some_iff]
      cases o with
      | equals =>
        cases h
        simp [Matcher.accepts_hasAttribute, AttributeTest.accepts, AttributeOperator.Relates]
      | includes =>
        cases h
        rw [Matcher.accepts_unless, Matcher.accepts_hasAttribute]
        simp only [AttributeTest.accepts, AttributeOperator.Relates, List.contains_iff_mem]
        constructor
        · exact And.right
        · rintro ⟨value, found, word⟩
          exact ⟨isWordLike_of_mem_words word, value, found, word⟩
      | dashMatch =>
        cases h
        simp only [Matcher.accepts_hasAttribute, AttributeTest.accepts, AttributeOperator.Relates,
          isDashExtension_iff]
      | startsWith =>
        cases h
        simp only [Matcher.accepts_piece, AttributeTest.accepts, AttributeOperator.Relates,
          List.isPrefixOf_iff_prefix]
      | endsWith =>
        cases h
        simp only [Matcher.accepts_piece, AttributeTest.accepts, AttributeOperator.Relates,
          List.isSuffixOf_iff_suffix]
      | contains =>
        cases h
        simp only [Matcher.accepts_piece, AttributeTest.accepts, AttributeOperator.Relates,
          occursIn_iff]

/-! ## Pseudo-classes -/

theorem Matcher.accepts_negate_iff {m : Matcher} :
    m.negate.accepts doc e = true ↔ ¬ m.accepts doc e = true := by
  rw [Matcher.accepts_negate, Bool.not_eq_true', Bool.not_eq_true]

theorem Matcher.accepts_htmlElement {names : List String} :
    (Matcher.htmlElement names).accepts doc e = true ↔ e.data.IsHtmlNamed names := by
  simp [Matcher.htmlElement, Matcher.accepts, Predicate.holds, ElementData.IsHtmlNamed,
    ElementData.isHtml]

theorem Matcher.accepts_attributePresent {name : String} :
    (Matcher.attributePresent name).accepts doc e = true ↔ e.data.Carries name := by
  rw [Matcher.attributePresent, Matcher.accepts_hasAttribute]
  simp [AttributeTest.accepts, ElementData.Carries]

/-- A sibling of the type of the element at another place than the element. -/
theorem Document.sharesType_iff :
    doc.sharesType e = true ↔
      ∃ (i : Nat) (s : Element), (doc.siblings e)[i]? = some s ∧ i ≠ doc.siblingIndex e ∧
        e.data.sameType s.data = true := by
  simp only [Document.sharesType, List.any_eq_true, Prod.exists, Bool.and_eq_true, bne_iff_ne]
  constructor
  · rintro ⟨s, i, member, other, same⟩
    exact ⟨i, s, List.mem_zipIdx_iff_getElem?.1 member, other, same⟩
  · rintro ⟨i, s, place, other, same⟩
    exact ⟨s, i, List.mem_zipIdx_iff_getElem?.2 place, other, same⟩

theorem PseudoClass.accepts_iff_holds {c : PseudoClass} :
    c.matcher.accepts doc e = true ↔ c.Holds doc e := by
  cases c with
  | link | disabled =>
    simp [PseudoClass.matcher, PseudoClass.Holds, Matcher.accepts_all,
      Matcher.accepts_htmlElement, Matcher.accepts_attributePresent,
      ElementData.isHtmlNamed_linkElements, ElementData.isHtmlNamed_formControls]
  | enabled | checked =>
    simp [PseudoClass.matcher, PseudoClass.Holds, Matcher.accepts_all, Matcher.accepts_any,
      Matcher.accepts_negate_iff, Matcher.accepts_htmlElement, Matcher.accepts_attributePresent,
      ElementData.isHtmlNamed_linkElements, ElementData.isHtmlNamed_formControls]
  | onlyOfType =>
    rw [PseudoClass.matcher, Matcher.accepts, Predicate.holds, Bool.not_eq_true', Bool.eq_false_iff,
      Ne, Document.sharesType_iff, PseudoClass.Holds]
    constructor
    · intro alone i s place other same
      exact alone ⟨i, s, place, other, same⟩
    · rintro alone ⟨i, s, place, other, same⟩
      exact alone i s place other same
  | visited | hover | active | focus | target =>
    simp [PseudoClass.matcher, PseudoClass.Holds, Matcher.accepts]
  | root | firstChild | lastChild | firstOfType | lastOfType | onlyChild | empty =>
    simp [PseudoClass.matcher, PseudoClass.Holds, Matcher.accepts, Predicate.holds]

theorem pseudoClassMatcher_accepts_iff {name : String} {m : Matcher}
    (h : pseudoClassMatcher name = .ok m) :
    m.accepts doc e = true ↔ ∃ c, PseudoClass.ofName? name = some c ∧ c.Holds doc e := by
  unfold pseudoClassMatcher at h
  split at h
  · rename_i c known
    cases h
    rw [PseudoClass.accepts_iff_holds, known]
    simp
  · cases h

theorem functionalMatcher_accepts_iff {name : String} {arguments : List Token} {m : Matcher}
    (h : functionalMatcher name arguments = .ok m) :
    m.accepts doc e = true ↔
      ∃ c, FunctionalPseudoClass.ofName? name = some c ∧ c.Holds doc e arguments := by
  unfold functionalMatcher at h
  split at h
  · cases h
  · rename_i known
    split at h
    · rename_i range single
      cases h
      simp [known, FunctionalPseudoClass.Holds, single, Matcher.accepts, Predicate.holds,
        Document.speaks, Option.any_eq_true, isDashExtension_iff]
    · cases h
  · rename_i kind known
    split at h
    · rename_i p value
      cases h
      rw [Matcher.accepts, Predicate.holds, AnPlusB.selects_iff]
      simp only [known, value, FunctionalPseudoClass.Holds, Option.some.injEq, exists_eq_left']
      exact exists_congr fun n => by omega
    · cases h

/-! ## Simple selectors and compounds -/

mutual

/-- A simple selector that compiles accepts the elements of which it holds. -/
theorem Simple.accepts_iff_holds : ∀ {simple : Simple} {m : Matcher}, simple.matcher = .ok m →
    (m.accepts doc e = true ↔ simple.Holds doc e)
  | .typeName name, _, h => by
    cases h
    simp [Matcher.accepts, Predicate.holds, Simple.Holds]
  | .inNamespace url, _, h => by
    cases h
    simp [Matcher.accepts, Predicate.holds, Simple.Holds]
  | .className name, _, h => by
    cases h
    simp [Matcher.accepts, Predicate.holds, Simple.Holds]
  | .id value, _, h => by
    cases h
    simp [Matcher.accepts, Predicate.holds, Simple.Holds]
  | .hasAttribute selector, _, h => by
    rw [Simple.Holds]
    exact AttributeSelector.accepts_iff_holds h
  | .pseudoClass name, _, h => by
    rw [Simple.Holds]
    exact pseudoClassMatcher_accepts_iff h
  | .functional name arguments, _, h => by
    rw [Simple.Holds]
    exact functionalMatcher_accepts_iff h
  | .negation inner, m, h => by
    rw [Simple.matcher] at h
    obtain ⟨members, compiled, rfl⟩ := map_eq_ok_iff.1 h
    rw [Matcher.accepts_negate_iff, Matcher.accepts_all, Simple.Holds]
    exact not_congr (Simple.all_accept_iff compiled)

/-- The matchers of several simple selectors all accept the elements of which all of them hold. -/
theorem Simple.all_accept_iff : ∀ {c : List Simple} {members : List Matcher},
    Simple.matchers c = .ok members →
      (members.all (Matcher.accepts doc e) = true ↔ Simple.AllHold doc e c)
  | [], _, h => by
    cases h
    simp [Simple.AllHold]
  | simple :: rest, _, h => by
    obtain ⟨m, members, first, others, rfl⟩ := Simple.matchers_cons_eq_ok_iff.1 h
    rw [List.all_cons, Bool.and_eq_true, Simple.AllHold, Simple.accepts_iff_holds first,
      Simple.all_accept_iff others]

end

theorem Compound.accepts_iff_holds {c : Compound} {m : Matcher} (h : Compound.matcher c = .ok m) :
    m.accepts doc e = true ↔ Compound.Holds doc e c := by
  obtain ⟨members, compiled, rfl⟩ := map_eq_ok_iff.1 h
  rw [Matcher.accepts_all, Simple.all_accept_iff compiled, Simple.allHold_iff]

/-! ## Combinators and chains -/

/-- Some ancestor exists exactly if there is a parent. -/
theorem Document.parentElement?_isSome_iff :
    (doc.parentElement? e).isSome = true ↔ ∃ f, f ∈ doc.ancestorElements e := by
  rw [← Document.head?_ancestorElements, isSome_head?_iff_exists_mem]

/-- Some element stands before another one exactly if one stands just before it. -/
theorem Document.previousElement?_isSome_iff :
    (doc.previousElement? e).isSome = true ↔ ∃ f, f ∈ doc.precedingElements e := by
  rw [Document.previousElement?, isSome_head?_iff_exists_mem]

/-- What a combinator makes of the matcher of the relative, a constant one included: some element
that stands to the given one as the combinator says is accepted. -/
theorem Combinator.accepts_relation {k : Combinator} {m : Matcher} :
    (k.relation m).accepts doc e = true ↔ ∃ f, k.Relates doc f e ∧ m.accepts doc f = true := by
  cases m with
  | never => simp [Combinator.relation, Matcher.accepts]
  | always =>
    cases k with
    | descendant =>
      simp only [Combinator.relation, Matcher.accepts, Predicate.holds, Combinator.Relates,
        and_true]
      exact Document.parentElement?_isSome_iff
    | child =>
      simp [Combinator.relation, Matcher.accepts, Predicate.holds, Combinator.Relates,
        Option.isSome_iff_exists]
    | nextSibling =>
      simp [Combinator.relation, Matcher.accepts, Predicate.holds, Combinator.Relates,
        Option.isSome_iff_exists]
    | subsequentSibling =>
      simp only [Combinator.relation, Matcher.accepts, Predicate.holds, Combinator.Relates,
        and_true]
      exact Document.previousElement?_isSome_iff
  | test p =>
    cases k with
    | descendant | subsequentSibling =>
      simp only [Combinator.relation, Matcher.accepts, Predicate.holds, Combinator.Relates,
        List.any_eq_true]
    | child | nextSibling =>
      simp only [Combinator.relation, Matcher.accepts, Predicate.holds, Combinator.Relates,
        Option.any_eq_true]

/-- The matcher of a chain accepts the elements in which witnesses of the chain end. -/
theorem Chain.matcher_accepts_iff {chain : Chain} {m : Matcher} (h : chain.matcher = .ok m) :
    m.accepts doc e = true ↔ ∃ es, chain.Witnessed doc es ∧ es.getLast? = some e := by
  induction chain generalizing m e with
  | single subject =>
    rw [Chain.matcher] at h
    rw [Compound.accepts_iff_holds h]
    constructor
    · intro holds
      exact ⟨[e], Chain.witnessed_single.2 ⟨e, rfl, holds⟩, rfl⟩
    · rintro ⟨es, witnessed, last⟩
      obtain ⟨f, rfl, holds⟩ := Chain.witnessed_single.1 witnessed
      cases last
      exact holds
  | joined left k subject ih =>
    obtain ⟨relative, own, compiled, compiledOwn, rfl⟩ := Chain.matcher_joined_eq_ok_iff.1 h
    rw [Matcher.accepts_all]
    simp only [List.all_cons, List.all_nil, Bool.and_true, Bool.and_eq_true,
      Compound.accepts_iff_holds compiledOwn, Combinator.accepts_relation, ih compiled]
    constructor
    · rintro ⟨holds, f, related, fs, witnessed, last⟩
      exact ⟨fs ++ [e],
        Chain.witnessed_joined.2 ⟨fs, f, e, rfl, witnessed, last, related, holds⟩, by simp⟩
    · rintro ⟨es, witnessed, last⟩
      obtain ⟨fs, f, g, rfl, witnessed, lastBefore, related, holds⟩ :=
        Chain.witnessed_joined.1 witnessed
      obtain rfl : g = e := by simpa using last
      exact ⟨holds, f, related, fs, witnessed, lastBefore⟩

/-- **Compiling keeps the meaning of a selector.** A compiled selector accepts an element exactly if
there is an element for each of its compounds, the last of them that element, such that every
compound holds of its element and every two elements in a row are related by the combinator between
their compounds. -/
theorem Compiled.accepts_iff_witnessed {s : Selector} {c : Compiled} (h : s.compile = .ok c) :
    c.accepts doc e = true ↔ ∃ es, s.chain.Witnessed doc es ∧ es.getLast? = some e := by
  obtain ⟨m, compiled, rfl⟩ := map_eq_ok_iff.1 h
  exact Chain.matcher_accepts_iff compiled

/-- The selector `:not(li) > * + li` put to the second item of a list. Its witnesses are the list,
the first item and the second one. -/
theorem Compiled.exists_witnesses_of_second_item :
    let item : Content := .element { name := "li" }
    let list := (Document.empty false).appendNew 0 (.element { name := "ul" })
    let doc := (list.appendNew 1 item).appendNew 1 item
    let s := Selector.ofChain (.joined (.joined (.single [.negation [.typeName "li"]]) .child [])
      .nextSibling [.typeName "li"]) none
    ∃ c, s.compile = .ok c ∧ c.accepts doc ⟨3, { name := "li" }⟩ = true ∧
      ∃ es, s.chain.Witnessed doc es ∧ es.getLast? = some ⟨3, { name := "li" }⟩ := by
  intro item list doc s
  obtain ⟨c, compiled, accepted⟩ :
      ∃ c, s.compile = .ok c ∧ c.accepts doc ⟨3, { name := "li" }⟩ = true := ⟨_, rfl, by decide⟩
  exact ⟨c, compiled, accepted, (Compiled.accepts_iff_witnessed compiled).1 accepted⟩

end Selectors
