import Selectors.Selector.Parser

/-!
What the readers of selector text read, one reader in terms of the others. `Yields` says that a
reader succeeds, with a value and the tokens it leaves; the bounds that results carry are left out
of it. The relations `ReadsAttribute`, `ReadsMembers`, `ReadsChain` and `ReadsSelector` list the
ways in which the longer readers succeed.
-/

namespace Selectors

namespace Reading

variable {α : Type} {table : Namespaces} {tokens rest : List Token}

/-! ## Results -/

/-- A reader gives a value and leaves some tokens. -/
def Yields (result : Except Failure (Parsed α tokens)) (value : α) (rest : List Token) : Prop :=
  ∃ le, result = .ok ⟨value, rest, le⟩

theorem yields_ok_iff {p : Parsed α tokens} {value : α} :
    Yields (.ok p) value rest ↔ p.value = value ∧ p.rest = rest := by
  refine ⟨fun ⟨_, same⟩ => ?_, fun ⟨sameValue, sameRest⟩ => ?_⟩
  · cases same
    exact ⟨rfl, rfl⟩
  · subst sameValue sameRest
    exact ⟨p.rest_le, rfl⟩

theorem not_yields_error {e : Failure} {value : α} :
    ¬ Yields (.error e : Except Failure (Parsed α tokens)) value rest := by
  intro ⟨_, h⟩
  cases h

theorem Parsed.yields (p : Parsed α tokens) : Yields (.ok p) p.value p.rest := ⟨p.rest_le, rfl⟩

theorem Yields.length_le {result : Except Failure (Parsed α tokens)} {value : α}
    (read : Yields result value rest) : rest.length ≤ tokens.length := read.1

/-! ## Attributes -/

theorem yields_closingBracket_iff :
    Yields (closingBracket tokens) () rest ↔ tokens = .rightBracket :: rest := by
  refine ⟨fun read => ?_, fun same => ?_⟩
  · unfold closingBracket at read
    split at read
    · exact congrArg (List.cons _) (yields_ok_iff.1 read).2
    · exact absurd read not_yields_error
    · exact absurd read not_yields_error
  · rw [same]
    exact ⟨_, rfl⟩

theorem yields_comparison_iff {o : AttributeOperator} {value : String} :
    Yields (comparison tokens) (o, value) rest ↔
      ∃ afterSign afterValue, Yields (operator tokens) o afterSign ∧
        Yields (operand (skipBlanks afterSign)) value afterValue ∧
        skipBlanks afterValue = .rightBracket :: rest := by
  refine ⟨fun read => ?_, fun ⟨afterSign, afterValue, signRead, valueRead, closed⟩ => ?_⟩
  · unfold comparison at read
    split at read
    · exact absurd read not_yields_error
    · rename_i sign signRead
      split at read
      · exact absurd read not_yields_error
      · rename_i v valueRead
        split at read
        · exact absurd read not_yields_error
        · rename_i close closed
          rcases yields_ok_iff.1 read with ⟨same, rfl⟩
          cases same
          exact ⟨sign.rest, v.rest, signRead ▸ sign.yields, valueRead ▸ v.yields,
            yields_closingBracket_iff.1 (closed ▸ close.yields)⟩
  · have close := yields_closingBracket_iff.2 closed
    rcases signRead with ⟨_, signRead⟩
    rcases valueRead with ⟨_, valueRead⟩
    rcases close with ⟨_, close⟩
    simp only [comparison, signRead, valueRead, close]
    exact ⟨_, rfl⟩

/-- How an attribute selector is read after its bracket: a name, and a bracket or a comparison. -/
inductive ReadsAttribute (table : Namespaces) (tokens : List Token) :
    AttributeSelector → List Token → Prop
  | present {namespaceUrl? : Option String} {name : String} {afterName rest : List Token}
    {le : afterName.length ≤ (skipBlanks tokens).length} :
    qualifiedName table false (skipBlanks tokens) =
      .ok (some ⟨⟨namespaceUrl?, some name⟩, afterName, le⟩) →
    skipBlanks afterName = .rightBracket :: rest →
    ReadsAttribute table tokens ⟨namespaceUrl?, name, none, ""⟩ rest
  | compared {namespaceUrl? : Option String} {name : String} {afterName rest : List Token}
    {le : afterName.length ≤ (skipBlanks tokens).length} {o : AttributeOperator} {value : String} :
    qualifiedName table false (skipBlanks tokens) =
      .ok (some ⟨⟨namespaceUrl?, some name⟩, afterName, le⟩) →
    Yields (comparison (skipBlanks afterName)) (o, value) rest →
    ReadsAttribute table tokens ⟨namespaceUrl?, name, some o, value⟩ rest

theorem yields_attributeSelector_iff {selector : AttributeSelector} :
    Yields (attributeSelector table tokens) selector rest ↔
      ReadsAttribute table tokens selector rest := by
  refine ⟨fun read => ?_, fun reads => ?_⟩
  · unfold attributeSelector at read
    split at read
    · exact absurd read not_yields_error
    · rename_i named
      split at read
      · rename_i closed
        rcases yields_ok_iff.1 read with ⟨rfl, rfl⟩
        exact .present named closed
      · split at read
        · exact absurd read not_yields_error
        · rename_i c compared
          rcases yields_ok_iff.1 read with ⟨rfl, rfl⟩
          exact .compared named (compared ▸ c.yields)
    · exact absurd read not_yields_error
  · unfold attributeSelector
    cases reads with
    | present named closed =>
      rw [named]
      dsimp only
      split
      · rename_i shape
        rw [closed, List.cons.injEq] at shape
        exact yields_ok_iff.2 ⟨rfl, shape.2.symm⟩
      · rename_i other
        exact absurd closed (other rest)
    | compared named compared =>
      rw [named]
      dsimp only
      split
      · rename_i shape
        rw [shape] at compared
        exact absurd compared not_yields_error
      · rcases compared with ⟨_, compared⟩
        rw [compared]
        exact ⟨_, rfl⟩

/-! ## Arguments -/

theorem yields_keep_iff {token : Token} {result : Except Failure (Parsed (List Token) tokens)}
    {arguments : List Token} :
    Yields (keep token result) arguments rest ↔
      ∃ more, Yields result more rest ∧ arguments = token :: more := by
  cases result with
  | error e =>
    refine iff_of_false not_yields_error fun ⟨more, read, _⟩ => ?_
    exact not_yields_error read
  | ok p =>
    unfold keep
    rw [yields_ok_iff]
    refine ⟨fun ⟨sameValue, sameRest⟩ => ?_, fun ⟨more, read, same⟩ => ?_⟩
    · exact ⟨p.value, yields_ok_iff.2 ⟨rfl, sameRest⟩, sameValue.symm⟩
    · rcases yields_ok_iff.1 read with ⟨rfl, sameRest⟩
      exact ⟨same.symm, sameRest⟩

theorem Yields.keep {result : Except Failure (Parsed (List Token) tokens)} {arguments : List Token}
    (read : Yields result arguments rest) (token : Token) :
    Yields (Reading.keep token result) (token :: arguments) rest :=
  yields_keep_iff.2 ⟨arguments, read, rfl⟩

/-! ## Compounds -/

/-- A reader that gives a part gives its pseudo-element. -/
theorem Yields.ending {result : Except Failure (Parsed Part tokens)} {part : Part}
    {pseudoElement? : Option String} (read : Yields result part rest)
    (same : part.pseudoElement? = pseudoElement?) :
    Yields result ⟨part.compound, pseudoElement?⟩ rest := by
  rwa [← same]

/-- How the members of a compound are read: what the first step finds, and what is read behind
it. -/
inductive ReadsMembers (table : Namespaces) (tokens : List Token) : Part → List Token → Prop
  | stop : step table tokens = .ok .stop → ReadsMembers table tokens ⟨[], none⟩ tokens
  | ending {name : String} {rest : List Token} {le : rest.length ≤ tokens.length} :
    step table tokens = .ok (.pseudoElement name rest le) →
    ReadsMembers table tokens ⟨[], some name⟩ rest
  | member {simple : Simple} {more rest : List Token} {lt : more.length < tokens.length}
    {part : Part} :
    step table tokens = .ok (.member simple more lt) → Yields (members table more) part rest →
    ReadsMembers table tokens (part.cons simple) rest
  | negation {opened mid afterInner more rest : List Token} {lt : opened.length < tokens.length}
    {types inner : Compound} {part : Part} :
    step table tokens = .ok (.negation opened lt) →
    Yields (typeSelector table (skipBlanks opened)) types mid →
    Yields (members table mid) ⟨inner, none⟩ afterInner →
    afterInner.length ≠ (skipBlanks opened).length →
    skipBlanks afterInner = .rightParen :: more →
    Yields (members table more) part rest →
    ReadsMembers table tokens (part.cons (.negation (types ++ inner))) rest

theorem yields_members_iff {part : Part} :
    Yields (members table tokens) part rest ↔ ReadsMembers table tokens part rest := by
  refine ⟨fun read => ?_, fun reads => ?_⟩
  · unfold members at read
    split at read
    · exact absurd read not_yields_error
    · rename_i stepped
      rcases yields_ok_iff.1 read with ⟨rfl, rfl⟩
      exact .stop stepped
    · rename_i stepped
      rcases yields_ok_iff.1 read with ⟨rfl, rfl⟩
      exact .ending stepped
    · rename_i stepped
      split at read
      · exact absurd read not_yields_error
      · rename_i later laterRead
        rcases yields_ok_iff.1 read with ⟨rfl, rfl⟩
        exact .member stepped (laterRead ▸ later.yields)
    · rename_i stepped
      split at read
      · exact absurd read not_yields_error
      · rename_i types typed
        dsimp only at read
        split at read
        · exact absurd read not_yields_error
        · rename_i inner innerRead
          split at read
          · exact absurd read not_yields_error
          · rename_i noPseudoElement
            split at read
            · exact absurd read not_yields_error
            · rename_i full
              split at read
              · rename_i closed
                split at read
                · exact absurd read not_yields_error
                · rename_i later laterRead
                  rcases yields_ok_iff.1 read with ⟨rfl, rfl⟩
                  have bare := Option.not_isSome_iff_eq_none.1 noPseudoElement
                  have innerYields := innerRead ▸ inner.yields.ending bare
                  exact .negation stepped (typed ▸ types.yields) innerYields full closed
                    (laterRead ▸ later.yields)
              · exact absurd read not_yields_error
  · unfold members
    cases reads with
    | stop stepped =>
      rw [stepped]
      exact ⟨_, rfl⟩
    | ending stepped =>
      rw [stepped]
      exact ⟨_, rfl⟩
    | member stepped later =>
      rcases later with ⟨_, later⟩
      rw [stepped]
      dsimp only
      rw [later]
      exact ⟨_, rfl⟩
    | negation stepped typed inner full closed later =>
      rcases typed with ⟨_, typed⟩
      rcases inner with ⟨_, inner⟩
      rcases later with ⟨_, later⟩
      rw [stepped]
      dsimp only
      rw [typed]
      dsimp only
      rw [inner]
      dsimp only
      rw [if_neg (by simp), if_neg full]
      split
      · rename_i shape
        rw [closed, List.cons.injEq] at shape
        rcases shape with ⟨-, rfl⟩
        rw [later]
        exact ⟨_, rfl⟩
      · rename_i other
        exact absurd closed (other _)

theorem yields_compound_iff {c : Compound} {pseudoElement? : Option String} :
    Yields (compound table tokens) ⟨c, pseudoElement?⟩ rest ↔
      ∃ types own mid, Yields (typeSelector table tokens) types mid ∧
        Yields (members table mid) ⟨own, pseudoElement?⟩ rest ∧ c = types ++ own := by
  refine ⟨fun read => ?_, fun ⟨types, own, mid, typed, ownRead, same⟩ => ?_⟩
  · unfold compound at read
    split at read
    · exact absurd read not_yields_error
    · rename_i types typed
      cases membersRead : members table types.rest with
      | error e =>
        rw [membersRead] at read
        exact absurd read not_yields_error
      | ok p =>
        rw [membersRead] at read
        rcases yields_ok_iff.1 read with ⟨same, rfl⟩
        cases same
        exact ⟨types.value, p.value.compound, types.rest, typed ▸ types.yields,
          membersRead ▸ p.yields, rfl⟩
  · rcases typed with ⟨_, typed⟩
    rcases ownRead with ⟨_, ownRead⟩
    unfold compound
    rw [typed]
    dsimp only
    rw [ownRead, same]
    exact ⟨_, rfl⟩

/-! ## Chains -/

/-- How a chain is read on behind the compounds in `left`. -/
inductive ReadsChain (table : Namespaces) (left : Chain) (tokens : List Token) :
    Chain × Option String → List Token → Prop
  | ended : combinator? tokens = none →
    ReadsChain table left tokens (left, none) (skipBlanks tokens)
  | last {k : Combinator} {mid after : List Token} {le : mid.length ≤ tokens.length} {c : Compound}
    {name : String} :
    combinator? tokens = some ⟨k, mid, le⟩ → Yields (compound table mid) ⟨c, some name⟩ after →
    after.length ≠ mid.length →
    ReadsChain table left tokens (.joined left k c, some name) (skipBlanks after)
  | joined {k : Combinator} {mid after rest : List Token} {le : mid.length ≤ tokens.length}
    {c : Compound} {whole : Chain × Option String} :
    combinator? tokens = some ⟨k, mid, le⟩ → Yields (compound table mid) ⟨c, none⟩ after →
    after.length ≠ mid.length → Yields (chainFrom table (.joined left k c) after) whole rest →
    ReadsChain table left tokens whole rest

theorem yields_chainFrom_iff {left : Chain} {whole : Chain × Option String} :
    Yields (chainFrom table left tokens) whole rest ↔ ReadsChain table left tokens whole rest := by
  refine ⟨fun read => ?_, fun reads => ?_⟩
  · unfold chainFrom at read
    split at read
    · rename_i ended
      rcases yields_ok_iff.1 read with ⟨rfl, rfl⟩
      exact .ended ended
    · rename_i k combined
      split at read
      · exact absurd read not_yields_error
      · rename_i part partRead
        split at read
        · exact absurd read not_yields_error
        · rename_i full
          dsimp only at read
          split at read
          · rename_i name last
            rcases yields_ok_iff.1 read with ⟨rfl, rfl⟩
            exact .last combined (partRead ▸ part.yields.ending last) full
          · rename_i bare
            split at read
            · exact absurd read not_yields_error
            · rename_i later laterRead
              rcases yields_ok_iff.1 read with ⟨rfl, rfl⟩
              exact .joined combined (partRead ▸ part.yields.ending bare) full
                (laterRead ▸ later.yields)
  · unfold chainFrom
    cases reads with
    | ended ended =>
      split
      · exact ⟨_, rfl⟩
      · rename_i combined
        rw [ended] at combined
        cases combined
    | last combined part full =>
      rcases part with ⟨_, part⟩
      rw [combined]
      dsimp only
      rw [part]
      dsimp only
      rw [dif_neg full]
      exact ⟨_, rfl⟩
    | joined combined part full later =>
      rcases part with ⟨_, part⟩
      rcases later with ⟨_, later⟩
      rw [combined]
      dsimp only
      rw [part]
      dsimp only
      rw [dif_neg full]
      rw [later]
      exact ⟨_, rfl⟩

/-- How a selector is read: a compound, which ends it or starts a chain. -/
inductive ReadsSelector (table : Namespaces) (tokens : List Token) : Selector → List Token → Prop
  | alone {after : List Token} {c : Compound} {name : String} :
    Yields (compound table (skipBlanks tokens)) ⟨c, some name⟩ after →
    after.length ≠ (skipBlanks tokens).length →
    ReadsSelector table tokens (.ofChain (.single c) (some name)) (skipBlanks after)
  | chain {after rest : List Token} {c : Compound} {chain : Chain}
    {pseudoElement? : Option String} :
    Yields (compound table (skipBlanks tokens)) ⟨c, none⟩ after →
    after.length ≠ (skipBlanks tokens).length →
    Yields (chainFrom table (.single c) after) (chain, pseudoElement?) rest →
    ReadsSelector table tokens (.ofChain chain pseudoElement?) rest

theorem yields_selector_iff {s : Selector} :
    Yields (selector table tokens) s rest ↔ ReadsSelector table tokens s rest := by
  refine ⟨fun read => ?_, fun reads => ?_⟩
  · unfold selector at read
    split at read
    · exact absurd read not_yields_error
    · rename_i part partRead
      dsimp only at read
      split at read
      · exact absurd read not_yields_error
      · rename_i full
        split at read
        · rename_i name last
          rcases yields_ok_iff.1 read with ⟨rfl, rfl⟩
          exact .alone (partRead ▸ part.yields.ending last) full
        · rename_i bare
          cases chainRead : chainFrom table (.single part.value.compound) part.rest with
          | error e =>
            rw [chainRead] at read
            exact absurd read not_yields_error
          | ok p =>
            rw [chainRead] at read
            rcases yields_ok_iff.1 read with ⟨rfl, rfl⟩
            exact .chain (partRead ▸ part.yields.ending bare) full (chainRead ▸ p.yields)
  · unfold selector
    cases reads with
    | alone part full =>
      rcases part with ⟨_, part⟩
      rw [part]
      dsimp only
      rw [if_neg full]
      exact ⟨_, rfl⟩
    | chain part full later =>
      rcases part with ⟨_, part⟩
      rcases later with ⟨_, later⟩
      rw [part]
      dsimp only
      rw [if_neg full]
      rw [later]
      exact ⟨_, rfl⟩

end Reading

end Selectors
