import Selectors.Proofs.Matching

/-!
Hints are sound. Every element that a compiled selector accepts has what each of its hints names,
because the hints are members of the subject and the subject holds of the element
(`Compiled.agrees_of_accepts`). A selector that is known never to match accepts nothing.

So whoever passes over the selectors that a hint speaks against (`Hints.excludes`) loses none that
matches (`Compiled.hints_sound`).
-/

namespace Selectors

variable {doc : Document} {e : Element}

/-- An element has what the hints name. -/
structure Hints.Agrees (h : Hints) (data : ElementData) : Prop where
  id : ∀ value, h.id? = some value → data.id? = some value
  className : ∀ name, h.className? = some name → name ∈ data.classes
  typeName : ∀ name, h.typeName? = some name → data.name = name
  namespaceUrl : ∀ url, h.namespaceUrl? = some url → data.namespaceUrl = url

/-- Each hint of a compound is one of its members, so it holds where the compound does. -/
theorem Compound.hints_agrees {c : Compound} (holds : Compound.Holds doc e c) :
    (Compound.hints c).Agrees e.data := by
  refine ⟨?_, ?_, ?_, ?_⟩
  all_goals
    intro value found
    obtain ⟨simple, member, same⟩ := List.exists_of_findSome?_eq_some found
    have own := holds simple member
    cases simple
  all_goals cases same
  all_goals simpa [Simple.Holds] using own

/-- The subject of a chain holds of the last of its witnesses. -/
theorem Chain.Witnessed.holds_subject {chain : Chain} {es : List Element}
    (witnessed : chain.Witnessed doc es) (last : es.getLast? = some e) :
    Compound.Holds doc e chain.subject := by
  cases chain with
  | single subject =>
    obtain ⟨f, rfl, holds⟩ := Chain.witnessed_single.1 witnessed
    cases last
    exact holds
  | joined left k subject =>
    obtain ⟨fs, f, g, rfl, -, -, -, holds⟩ := Chain.witnessed_joined.1 witnessed
    obtain rfl : g = e := by simpa using last
    exact holds

theorem Compiled.agrees_of_accepts {s : Selector} {c : Compiled} (h : s.compile = .ok c)
    (accepted : c.accepts doc e = true) : c.hints.Agrees e.data := by
  obtain ⟨m, compiled, rfl⟩ := map_eq_ok_iff.1 h
  obtain ⟨es, witnessed, last⟩ := (Chain.matcher_accepts_iff compiled).1 accepted
  exact Compound.hints_agrees (witnessed.holds_subject last)

/-- Whatever compiling a list gives was compiled from a member of the list. -/
theorem exists_source_of_mem {ss : List Selector} {cs : List Compiled} {c : Compiled}
    (h : compileAll ss = .ok cs) (member : c ∈ cs) : ∃ s : Selector, s.compile = .ok c := by
  induction ss generalizing cs with
  | nil =>
    cases h
    cases member
  | cons s rest ih =>
    rw [compileAll] at h
    split at h
    · cases h
    · rename_i first compiled
      obtain ⟨others, compiledRest, rfl⟩ := map_eq_ok_iff.1 h
      rcases List.mem_cons.1 member with rfl | member
      · exact ⟨s, compiled⟩
      · exact ih compiledRest member

theorem Compiled.not_accepts_of_neverMatches {c : Compiled} (h : c.neverMatches = true) :
    c.accepts doc e = false := by
  rcases c with ⟨m, specificity, pseudoElement?, hints⟩
  cases m with
  | always | test => cases h
  | never => rfl

/-! ## Passing over selectors -/

/-- Some hint names what an element does not have. -/
def Hints.excludes (h : Hints) (data : ElementData) : Bool :=
  h.id?.any (fun value => data.id? != some value) ||
    h.className?.any (fun name => !data.classes.contains name) ||
    h.typeName?.any (fun name => data.name != name) ||
    h.namespaceUrl?.any (fun url => data.namespaceUrl != url)

theorem Hints.excludes_eq_false_iff {h : Hints} {data : ElementData} :
    h.excludes data = false ↔ h.Agrees data := by
  have parts : h.excludes data = false ↔
      (∀ value, h.id? = some value → data.id? = some value) ∧
        (∀ name, h.className? = some name → name ∈ data.classes) ∧
        (∀ name, h.typeName? = some name → data.name = name) ∧
        ∀ url, h.namespaceUrl? = some url → data.namespaceUrl = url := by
    simp [Hints.excludes, Option.any_eq_false, and_assoc]
  rw [parts]
  exact ⟨fun ⟨id, className, typeName, url⟩ => ⟨id, className, typeName, url⟩,
    fun agrees => ⟨agrees.id, agrees.className, agrees.typeName, agrees.namespaceUrl⟩⟩

/-- **Hints are sound.** Whatever stands in the selector beside them, an element that it matches has
the identifier, the class, the name and the namespace that its hints name. So a selector that is
passed over because a hint speaks against an element would not have matched it. -/
theorem Compiled.hints_sound {s : Selector} {c : Compiled} (compiled : s.compile = .ok c)
    (doc : Document) (e : Element) :
    (c.accepts doc e = true → c.hints.Agrees e.data) ∧
      (c.hints.excludes e.data = true → c.accepts doc e = false) := by
  have agrees (accepted : c.accepts doc e = true) : c.hints.Agrees e.data :=
    Compiled.agrees_of_accepts compiled accepted
  refine ⟨agrees, fun excluded => ?_⟩
  rw [Bool.eq_false_iff]
  intro accepted
  rw [Hints.excludes_eq_false_iff.2 (agrees accepted)] at excluded
  cases excluded

/-- The selector `#menu > li.open:not(.shut)` has hints from its last compound alone. The item that
it matches has what they name, and the other item is passed over for its class. -/
theorem Compiled.hints_of_open_item :
    let menu : ElementData := { name := "ul", attributes := [⟨"", "id", "menu"⟩] }
    let opened : ElementData := { name := "li", attributes := [⟨"", "class", "first open"⟩] }
    let shut : ElementData := { name := "li", attributes := [⟨"", "class", "shut"⟩] }
    let list := (Document.empty false).appendNew 0 (.element menu)
    let doc := (list.appendNew 1 (.element opened)).appendNew 1 (.element shut)
    let s := Selector.ofChain (.joined (.single [.id "menu"]) .child
      [.typeName "li", .className "open", .negation [.className "shut"]]) none
    ∃ c, s.compile = .ok c ∧ c.hints = { className? := some "open", typeName? := some "li" } ∧
      c.accepts doc ⟨2, opened⟩ = true ∧ c.hints.Agrees opened ∧
      c.hints.excludes shut = true ∧ c.accepts doc ⟨3, shut⟩ = false := by
  intro menu opened shut list doc s
  obtain ⟨c, compiled, hints, accepted, excluded⟩ : ∃ c, s.compile = .ok c ∧
      c.hints = { className? := some "open", typeName? := some "li" } ∧
      c.accepts doc ⟨2, opened⟩ = true ∧ c.hints.excludes shut = true :=
    ⟨_, rfl, rfl, by decide, by decide⟩
  exact ⟨c, compiled, hints, accepted, (Compiled.hints_sound compiled doc _).1 accepted, excluded,
    (Compiled.hints_sound compiled doc ⟨3, shut⟩).2 excluded⟩

end Selectors
