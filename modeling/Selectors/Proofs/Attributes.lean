import Selectors.Proofs.Matching

/-!
How attribute selectors take values apart. Apart from its presence an attribute is tested by writing
its value as the operand with something in front of it, behind it or on both sides
(`AttributeOperator.Decomposes`). What stands beside a word has to end at a blank character.

Some operands are turned down before an element is seen, the others are looked for in the value when
it is. `Compiled.attribute_accepts_iff_decomposes` puts both together, and with them the test of a
class, which is made in another way. It rests on `mem_cut_iff`: a piece of a text is a stretch of it
that has no cut inside and a cut or an end on both sides.
-/

namespace Selectors

/-! ## Pieces -/

section Pieces

variable {isCut : Char → Bool} {cs piece : List Char}

theorem cut_eq_splitOnP (isCut : Char → Bool) (cs : List Char) :
    cut isCut cs = cs.splitOnP isCut := by
  induction cs with
  | nil => rfl
  | cons c cs ih =>
    rw [List.splitOnP_cons_eq_if_modifyHead, cut, ih]
    cases pieces : cs.splitOnP isCut with
    | nil => exact absurd pieces (List.splitOnP_ne_nil isCut cs)
    | cons first rest => rfl

/-- A cut falls between the pieces in front of it and those behind it. -/
theorem cut_append_cons {c : Char} (isCutHere : isCut c = true) (front back : List Char) :
    cut isCut (front ++ c :: back) = cut isCut front ++ cut isCut back := by
  simp only [cut_eq_splitOnP]
  exact List.splitOnP_append_cons front back isCutHere

theorem cut_eq_singleton (whole : ∀ c ∈ cs, isCut c = false) : cut isCut cs = [cs] := by
  rw [cut_eq_splitOnP]
  exact List.splitOnP_eq_singleton whole

/-- A stretch of a text can only be a piece of it if cuts, or the ends of the text, stand on both
sides. -/
theorem exists_sides_of_mem_cut (member : piece ∈ cut isCut cs) :
    ∃ front back, cs = front ++ piece ++ back ∧ (∀ c ∈ front.getLast?, isCut c = true) ∧
      ∀ c ∈ back.head?, isCut c = true := by
  induction size : cs.length using Nat.strongRecOn generalizing cs with
  | ind n ih =>
    by_cases whole : ∀ c ∈ cs, isCut c = false
    · rw [cut_eq_singleton whole, List.mem_singleton] at member
      exact ⟨[], [], by simp [member], nofun, nofun⟩
    · simp only [not_forall, Bool.not_eq_false] at whole
      obtain ⟨c, inside, isCutHere⟩ := whole
      obtain ⟨left, right, rfl⟩ := List.append_of_mem inside
      simp only [List.length_append, List.length_cons] at size
      rw [cut_append_cons isCutHere, List.mem_append] at member
      rcases member with member | member
      · obtain ⟨front, back, rfl, inFront, behind⟩ := ih left.length (by omega) member rfl
        refine ⟨front, back ++ c :: right, by simp, inFront, ?_⟩
        cases back with
        | nil => simpa using isCutHere
        | cons next back => exact behind
      · obtain ⟨front, back, rfl, inFront, behind⟩ := ih right.length (by omega) member rfl
        refine ⟨left ++ c :: front, back, by simp, ?_, behind⟩
        rcases List.eq_nil_or_concat front with rfl | ⟨rest, last, rfl⟩
        · simpa using isCutHere
        · simpa [List.getLast?_cons] using inFront

theorem mem_cut_iff : piece ∈ cut isCut cs ↔ (∀ c ∈ piece, isCut c = false) ∧
    ∃ front back, cs = front ++ piece ++ back ∧ (∀ c ∈ front.getLast?, isCut c = true) ∧
      ∀ c ∈ back.head?, isCut c = true := by
  constructor
  · intro member
    exact ⟨not_isCut_of_mem_cut member, exists_sides_of_mem_cut member⟩
  · rintro ⟨whole, front, back, rfl, inFront, behind⟩
    have alone : piece ∈ cut isCut piece := by
      rw [cut_eq_singleton whole]
      exact List.mem_singleton_self piece
    have withBack : piece ∈ cut isCut (piece ++ back) := by
      cases back with
      | nil => rwa [List.append_nil]
      | cons c back =>
        rw [cut_append_cons (behind c rfl)]
        exact List.mem_append_left _ alone
    rw [List.append_assoc]
    rcases List.eq_nil_or_concat front with rfl | ⟨rest, c, rfl⟩
    · exact withBack
    · rw [List.concat_eq_append] at inFront ⊢
      rw [List.append_assoc, List.singleton_append,
        cut_append_cons (inFront c List.getLast?_concat)]
      exact List.mem_append_right _ withBack

end Pieces

/-- A word of a text is a piece of it that is not empty. -/
theorem mem_words_iff {value word : String} :
    word ∈ words value ↔ word ≠ "" ∧ word.toList ∈ cut isBlank value.toList := by
  rw [words, List.mem_map]
  constructor
  · rintro ⟨piece, member, rfl⟩
    obtain ⟨member, nonempty⟩ := List.mem_filter.1 member
    rw [String.toList_ofList]
    refine ⟨fun empty => ?_, member⟩
    rw [String.ofList_eq_empty_iff] at empty
    rw [empty] at nonempty
    cases nonempty
  · rintro ⟨nonempty, member⟩
    refine ⟨word.toList, List.mem_filter.2 ⟨member, ?_⟩, String.ofList_toList⟩
    simpa using nonempty

/-! ## Operators -/

/-- The characters that stand between words. -/
def blankCharacters : List Char := [' ', '\t', '\n', '\r', '\x0c']

theorem isBlank_iff {c : Char} : isBlank c = true ↔ c ∈ blankCharacters := by
  simp [isBlank, blankCharacters, or_assoc]

/-- How a value has to be made up of the operand and what stands beside it. -/
def AttributeOperator.Decomposes (value operand : List Char) : AttributeOperator → Prop
  | .equals => value = operand
  | .dashMatch => value = operand ∨ ∃ back, value = operand ++ '-' :: back
  | .startsWith => operand ≠ [] ∧ ∃ back, value = operand ++ back
  | .endsWith => operand ≠ [] ∧ ∃ front, value = front ++ operand
  | .contains => operand ≠ [] ∧ ∃ front back, value = front ++ operand ++ back
  | .includes =>
    operand ≠ [] ∧ (∀ c ∈ operand, c ∉ blankCharacters) ∧ ∃ front back,
      value = front ++ operand ++ back ∧ (∀ c ∈ front.getLast?, c ∈ blankCharacters) ∧
        ∀ c ∈ back.head?, c ∈ blankCharacters

/-- What an operator asks of a value and its words is a way to take the value apart. -/
theorem AttributeOperator.relates_iff_decomposes {value operand : String} {o : AttributeOperator} :
    o.Relates value operand ↔ o.Decomposes value.toList operand.toList := by
  have nonempty : operand ≠ "" ↔ operand.toList ≠ [] := not_congr String.toList_eq_nil_iff.symm
  cases o with
  | equals => exact String.toList_inj.symm
  | includes =>
    rw [Relates, mem_words_iff, mem_cut_iff, Decomposes, nonempty]
    simp only [isBlank_iff, ← Bool.not_eq_true]
  | dashMatch =>
    rw [Relates, Decomposes, String.toList_inj, List.prefix_iff_exists_eq_append]
    simp only [List.append_assoc, List.singleton_append]
  | startsWith => rw [Relates, Decomposes, nonempty, List.prefix_iff_exists_eq_append]
  | endsWith => rw [Relates, Decomposes, nonempty, List.suffix_iff_exists_eq_append]
  | contains =>
    rw [Relates, Decomposes, nonempty, List.IsInfix]
    simp only [eq_comm]

/-! ## Selectors -/

/-- The selector that is one simple selector. -/
def Simple.alone (simple : Simple) : Selector := .ofChain (.single [simple]) none

/-- A conjunction of one matcher is this matcher. -/
theorem Matcher.all_singleton (m : Matcher) : Matcher.all [m] = m := by
  cases m <;> rfl

/-- A simple selector without a fault compiles alone, and then it matches where it holds. -/
theorem Simple.compile_alone {simple : Simple} {m : Matcher} (asks : simple.matcher = .ok m) :
    ∃ c, simple.alone.compile = .ok c ∧
      ∀ (doc : Document) (e : Element), c.accepts doc e = true ↔ simple.Holds doc e := by
  have chain : (Chain.single [simple]).matcher = .ok m := by
    rw [Chain.matcher, Compound.matcher, Simple.matchers, asks]
    exact congrArg Except.ok (Matcher.all_singleton m)
  refine ⟨⟨m, simple.alone.specificity, none, Compound.hints [simple]⟩, ?_, fun doc e => ?_⟩
  · rw [Simple.alone, Selector.compile, Selector.ofChain, chain]
    rfl
  · exact Simple.accepts_iff_holds asks

/-- An attribute selector in a given namespace has no fault. -/
theorem Simple.compile_hasAttribute (url name operand : String)
    (operator? : Option AttributeOperator) :
    ∃ c, (Simple.hasAttribute ⟨some url, name, operator?, operand⟩).alone.compile = .ok c ∧
      ∀ (doc : Document) (e : Element), c.accepts doc e = true ↔
        ∃ value, e.data.getAttribute? url name = some value ∧
          ∀ o ∈ operator?, o.Relates value operand := by
  let a : AttributeSelector := ⟨some url, name, operator?, operand⟩
  have asks : ∃ m, (Simple.hasAttribute a).matcher = .ok m := ⟨_, by rw [Simple.matcher]; rfl⟩
  obtain ⟨m, asks⟩ := asks
  obtain ⟨c, compiled, accepts⟩ := Simple.compile_alone asks
  refine ⟨c, compiled, fun doc e => ?_⟩
  rw [accepts, Simple.Holds]
  constructor
  · rintro ⟨other, value, given, found, relates⟩
    obtain rfl : url = other := Option.some.inj given
    exact ⟨value, found, relates⟩
  · rintro ⟨value, found, relates⟩
    exact ⟨url, value, rfl, found, relates⟩

theorem Simple.compile_className (name : String) :
    ∃ c, (Simple.className name).alone.compile = .ok c ∧
      ∀ (doc : Document) (e : Element), c.accepts doc e = true ↔ name ∈ e.data.classes := by
  have asks : (Simple.className name).matcher = .ok (.test (.className name)) := by
    rw [Simple.matcher]
  obtain ⟨c, compiled, accepts⟩ := Simple.compile_alone asks
  refine ⟨c, compiled, fun doc e => ?_⟩
  rw [accepts, Simple.Holds]

/-- The classes of an element are the words of its attribute `class`, if it has one. -/
theorem ElementData.mem_classes_iff {data : ElementData} {name : String} :
    name ∈ data.classes ↔
      ∃ value, data.getAttribute? "" "class" = some value ∧ name ∈ words value := by
  rw [ElementData.classes]
  cases data.getAttribute? "" "class" with
  | none => exact iff_of_false List.not_mem_nil nofun
  | some value => simp

/-- **An attribute selector takes the value apart.** Alone it compiles, and it matches an element
exactly if this has the attribute, with a value that is made up as the operator says. A class
selector matches wherever `~=` matches the attribute `class` with the same operand. -/
theorem Compiled.attribute_accepts_iff_decomposes :
    (∀ (url name operand : String) (operator? : Option AttributeOperator), ∃ c,
      (Simple.hasAttribute ⟨some url, name, operator?, operand⟩).alone.compile = .ok c ∧
      ∀ (doc : Document) (e : Element), c.accepts doc e = true ↔
        ∃ value, e.data.getAttribute? url name = some value ∧
          ∀ o ∈ operator?, o.Decomposes value.toList operand.toList) ∧
    ∀ name : String, ∃ c d,
      (Simple.className name).alone.compile = .ok c ∧
      (Simple.hasAttribute ⟨some "", "class", some .includes, name⟩).alone.compile = .ok d ∧
      ∀ (doc : Document) (e : Element), c.accepts doc e = d.accepts doc e := by
  constructor
  · intro url name operand operator?
    obtain ⟨c, compiled, accepts⟩ := Simple.compile_hasAttribute url name operand operator?
    refine ⟨c, compiled, fun doc e => ?_⟩
    rw [accepts]
    simp only [AttributeOperator.relates_iff_decomposes]
  · intro name
    obtain ⟨c, compiled, accepts⟩ := Simple.compile_className name
    obtain ⟨d, compiledWord, acceptsWord⟩ :=
      Simple.compile_hasAttribute "" "class" name (some .includes)
    refine ⟨c, d, compiled, compiledWord, fun doc e => ?_⟩
    rw [Bool.eq_iff_iff, accepts, acceptsWord, ElementData.mem_classes_iff]
    simp [AttributeOperator.Relates]

/-- In a value with a tab in front of it the operand `b` is a word. -/
theorem Compiled.accepts_word_behind_tab :
    let e : Element := ⟨1, { name := "li", attributes := [⟨"", "class", "a\tb"⟩] }⟩
    ∃ c, (Simple.hasAttribute ⟨some "", "class", some .includes, "b"⟩).alone.compile = .ok c ∧
      c.accepts default e = true := by
  intro e
  obtain ⟨c, compiled, accepts⟩ :=
    Compiled.attribute_accepts_iff_decomposes.1 "" "class" "b" (some .includes)
  refine ⟨c, compiled, (accepts default e).2 ⟨"a\tb", by decide, fun o given => ?_⟩⟩
  obtain rfl := Option.some.inj given
  have sides : ∀ c ∈ (['a', '\t'] : List Char).getLast?, c ∈ blankCharacters := by
    simp [blankCharacters]
  exact ⟨by decide, by simp [blankCharacters], ['a', '\t'], [], by decide, sides, nofun⟩

end Selectors
