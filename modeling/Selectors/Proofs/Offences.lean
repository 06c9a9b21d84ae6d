import Selectors.Compiled
import Selectors.Proofs.Meaning

/-!
Faults of selectors. A simple selector offends if it asks for something that cannot be compiled: an
attribute in whatever namespace, a pseudo-class that nobody knows, or arguments that are not of the
form that the pseudo-class needs. `Simple.Offends` says so by itself, and with which fault.

A selector compiles if and only if nothing that is written in it offends, in no compound and at no
depth of negation, and else the first offence is reported. It does not matter what folds to a
constant. The same holds of whole lists, and a text that cannot be read is never looked at in this
way (`compile_reports_first_offence`).

The proof composes reports: if two parts report their first offences, then so does whatever looks at
the second part only after the first one (`Reports.ok_append`, `Reports.error_append`).
-/

namespace Selectors

/-! ## Offences -/

/-- The form that the arguments of a pseudo-class need. -/
def FunctionalPseudoClass.form : FunctionalPseudoClass → ArgumentForm
  | .lang => .identifier
  | .nth _ => .anPlusB

/-- Arguments are of a form: exactly one identifier when blanks are left out, or an `An+B`. -/
def ArgumentForm.Fits (arguments : List Token) : ArgumentForm → Prop
  | .identifier => ∃ range, AnPlusB.solid arguments = [.ident range]
  | .anPlusB => ∃ p, AnPlusB.parse? arguments = some p

/-- A simple selector cannot be compiled, and a fault says why. -/
inductive Simple.Offends : Simple → CompileError → Prop
  /-- An attribute is asked for in any namespace. -/
  | anyNamespace {a : AttributeSelector} :
    a.namespaceUrl? = none → Offends (.hasAttribute a) (.anyNamespaceAttribute a.name)
  /-- No pseudo-class has the name. -/
  | pseudoClass {name : String} :
    (∀ c : PseudoClass, name ≠ c.name) → Offends (.pseudoClass name) (.unknownPseudoClass name)
  /-- No pseudo-class with arguments has the name. -/
  | functional {name : String} {arguments : List Token} :
    (∀ c : FunctionalPseudoClass, name ≠ c.name) →
    Offends (.functional name arguments) (.unknownPseudoClass name)
  /-- The arguments are not of the form that the pseudo-class needs. -/
  | arguments {name : String} {arguments : List Token} {c : FunctionalPseudoClass} :
    name = c.name → ¬ c.form.Fits arguments →
    Offends (.functional name arguments) (.invalidArguments name c.form)

/-- A simple selector cannot be compiled. -/
def Simple.Offending (simple : Simple) : Prop := ∃ fault, simple.Offends fault

/-- The fault of the first one of several simple selectors that offends. -/
def FirstOffence (simples : List Simple) (fault : CompileError) : Prop :=
  ∃ front simple back, simples = front ++ simple :: back ∧
    (∀ other ∈ front, ¬ other.Offending) ∧ simple.Offends fault

section Lists

variable {simple : Simple} {xs ys : List Simple} {fault : CompileError}

theorem not_firstOffence_nil : ¬ FirstOffence [] fault := by
  intro ⟨front, simple, back, same, _⟩
  simp at same

theorem firstOffence_cons_iff :
    FirstOffence (simple :: xs) fault ↔
      simple.Offends fault ∨ (¬ simple.Offending ∧ FirstOffence xs fault) := by
  constructor
  · intro ⟨front, found, back, same, before, offends⟩
    cases front with
    | nil =>
      cases same
      exact .inl offends
    | cons first front =>
      cases same
      exact .inr ⟨before _ List.mem_cons_self, front, found, back, rfl,
        fun other member => before other (List.mem_cons_of_mem _ member), offends⟩
  · intro first
    rcases first with offends | ⟨harmless, front, found, back, same, before, offends⟩
    · exact ⟨[], simple, xs, rfl, nofun, offends⟩
    · refine ⟨simple :: front, found, back, by rw [same, List.cons_append], ?_, offends⟩
      exact List.forall_mem_cons.2 ⟨harmless, before⟩

theorem firstOffence_append_iff :
    FirstOffence (xs ++ ys) fault ↔
      FirstOffence xs fault ∨ ((∀ x ∈ xs, ¬ x.Offending) ∧ FirstOffence ys fault) := by
  induction xs with
  | nil => simp [not_firstOffence_nil]
  | cons x xs ih =>
    rw [List.cons_append, firstOffence_cons_iff, firstOffence_cons_iff, ih, List.forall_mem_cons]
    tauto

/-- There is a first offence if there is any. -/
theorem exists_firstOffence_iff :
    (∃ fault, FirstOffence xs fault) ↔ ∃ simple ∈ xs, simple.Offending := by
  induction xs with
  | nil => simp [not_firstOffence_nil]
  | cons x xs ih =>
    simp only [firstOffence_cons_iff, exists_or, exists_and_left, ih, List.exists_mem_cons_iff]
    by_cases offending : x.Offending
    · exact iff_of_true (.inl offending) (.inl offending)
    · rw [and_iff_right offending]
      rfl

end Lists

/-! ## Reports -/

/-- A result is a fault if and only if something offends, and then the first fault. -/
def Reports {α : Type} (result : Except CompileError α) (simples : List Simple) : Prop :=
  ∀ fault, result = .error fault ↔ FirstOffence simples fault

namespace Reports

variable {α β : Type} {result : Except CompileError α} {a : α} {fault : CompileError}
  {xs ys : List Simple}

theorem map {f : α → β} (reports : Reports result xs) : Reports (result.map f) xs := by
  intro fault
  rw [← reports fault]
  cases result <;> simp [Except.map]

/-- It does not matter which value there is. -/
theorem of_ok (reports : Reports (.ok a) xs) (b : β) :
    Reports (.ok b : Except CompileError β) xs :=
  fun fault => (iff_of_false nofun nofun).trans (reports fault)

/-- Nothing offends where there is a value. -/
theorem harmless (reports : Reports (.ok a) xs) : ∀ x ∈ xs, ¬ x.Offending := by
  intro x member offending
  obtain ⟨fault, first⟩ := exists_firstOffence_iff.2 ⟨x, member, offending⟩
  cases (reports fault).2 first

/-- What looks at a second part once the first one has a value reports the second part. -/
theorem ok_append (reports : Reports (.ok a) xs) {behind : Except CompileError β}
    (reportsBehind : Reports behind ys) : Reports behind (xs ++ ys) := by
  intro fault
  have none : ¬ FirstOffence xs fault := fun first => nomatch (reports fault).2 first
  rw [reportsBehind fault, firstOffence_append_iff, or_iff_right none,
    and_iff_right reports.harmless]

/-- A fault of the first part is reported whatever is in the second one. -/
theorem error_append (reports : Reports (.error fault : Except CompileError α) xs) :
    Reports (.error fault : Except CompileError β) (xs ++ ys) := by
  have first : FirstOffence xs fault := (reports fault).1 rfl
  obtain ⟨x, member, offending⟩ := exists_firstOffence_iff.1 ⟨fault, first⟩
  intro other
  have notBehind : ¬ ((∀ x ∈ xs, ¬ x.Offending) ∧ FirstOffence ys other) :=
    fun behind => behind.1 x member offending
  rw [firstOffence_append_iff, or_iff_left notBehind, ← reports other, Except.error.injEq,
    Except.error.injEq]

/-- A simple selector with nothing written inside it reports itself. -/
theorem of_offends {simple : Simple}
    (same : ∀ fault, result = .error fault ↔ simple.Offends fault) : Reports result [simple] := by
  intro fault
  rw [same, firstOffence_cons_iff, or_iff_left fun behind => not_firstOffence_nil behind.2]

/-- A negation does not offend itself. -/
theorem negation {inner : List Simple} (reports : Reports result xs) :
    Reports result (.negation inner :: xs) := by
  have harmless : ¬ (Simple.negation inner).Offending := nofun
  intro fault
  rw [reports fault, firstOffence_cons_iff, or_iff_right fun offends => harmless ⟨_, offends⟩,
    and_iff_right harmless]

end Reports

/-! ## Simple selectors -/

section Leaves

variable {name : String} {arguments : List Token} {fault : CompileError}

theorem AttributeSelector.matcher_eq_error_iff {a : AttributeSelector} :
    a.matcher = .error fault ↔ (Simple.hasAttribute a).Offends fault := by
  rcases a with ⟨url?, name, operator?, operand⟩
  cases url? with
  | none =>
    constructor
    · intro reported
      cases reported
      exact .anyNamespace rfl
    · intro offends
      cases offends
      rfl
  | some url =>
    constructor
    · nofun
    · intro offends
      cases offends with
      | anyNamespace none => cases none

theorem pseudoClassMatcher_eq_error_iff :
    pseudoClassMatcher name = .error fault ↔ (Simple.pseudoClass name).Offends fault := by
  unfold pseudoClassMatcher
  split
  · rename_i c known
    constructor
    · nofun
    · intro offends
      cases offends with
      | pseudoClass unknown => exact absurd (PseudoClass.ofName?_eq_some_iff.1 known) (unknown c)
  · rename_i unknown
    constructor
    · intro reported
      cases reported
      exact .pseudoClass (PseudoClass.ofName?_eq_none_iff.1 unknown)
    · intro offends
      cases offends
      rfl

/-- One pseudo-class has one name. -/
theorem FunctionalPseudoClass.eq_of_name_eq {c d : FunctionalPseudoClass} (same : c.name = d.name) :
    c = d := by
  have known := FunctionalPseudoClass.ofName?_name c
  rw [same, FunctionalPseudoClass.ofName?_name, Option.some.injEq] at known
  exact known.symm

theorem functionalMatcher_eq_error_iff_of_known {c : FunctionalPseudoClass}
    (known : FunctionalPseudoClass.ofName? name = some c) :
    functionalMatcher name arguments = .error fault ↔
      ¬ c.form.Fits arguments ∧ fault = .invalidArguments name c.form := by
  unfold functionalMatcher
  rw [known]
  cases c with
  | lang =>
    dsimp only
    split
    · rename_i range single
      exact iff_of_false nofun fun misfit => misfit.1 ⟨range, single⟩
    · rename_i others
      rw [Except.error.injEq, eq_comm]
      exact (and_iff_right fun ⟨range, single⟩ => others range single).symm
  | nth kind =>
    dsimp only
    split
    · rename_i p value
      exact iff_of_false nofun fun misfit => misfit.1 ⟨p, value⟩
    · rename_i malformed
      rw [Except.error.injEq, eq_comm]
      exact (and_iff_right fun ⟨p, value⟩ => nomatch malformed.symm.trans value).symm

theorem functionalMatcher_eq_error_iff :
    functionalMatcher name arguments = .error fault ↔
      (Simple.functional name arguments).Offends fault := by
  cases known : FunctionalPseudoClass.ofName? name with
  | none =>
    have unknown := FunctionalPseudoClass.ofName?_eq_none_iff.1 known
    unfold functionalMatcher
    rw [known, Except.error.injEq]
    constructor
    · intro same
      exact same ▸ .functional unknown
    · intro offends
      cases offends with
      | functional => rfl
      | arguments named => exact absurd named (unknown _)
  | some c =>
    have named := FunctionalPseudoClass.ofName?_eq_some_iff.1 known
    rw [functionalMatcher_eq_error_iff_of_known known]
    constructor
    · intro ⟨misfit, same⟩
      exact same ▸ .arguments named misfit
    · intro offends
      cases offends with
      | functional unknown => exact absurd named (unknown c)
      | arguments namedAlike misfit =>
        obtain rfl := FunctionalPseudoClass.eq_of_name_eq (namedAlike.symm.trans named)
        exact ⟨misfit, rfl⟩

end Leaves

mutual

theorem Simple.reports_matcher : ∀ simple : Simple, Reports simple.matcher simple.parts
  | .typeName _ => .of_offends fun _ => iff_of_false nofun nofun
  | .inNamespace _ => .of_offends fun _ => iff_of_false nofun nofun
  | .className _ => .of_offends fun _ => iff_of_false nofun nofun
  | .id _ => .of_offends fun _ => iff_of_false nofun nofun
  | .hasAttribute _ => .of_offends fun _ => AttributeSelector.matcher_eq_error_iff
  | .pseudoClass _ => .of_offends fun _ => pseudoClassMatcher_eq_error_iff
  | .functional _ _ => .of_offends fun _ => functionalMatcher_eq_error_iff
  | .negation inner => (Simple.reports_matchers inner).map.negation

/-- The members of a compound are looked at in their order. -/
theorem Simple.reports_matchers : ∀ c : List Simple, Reports (Simple.matchers c) (Simple.partsAll c)
  | [] => fun _ => iff_of_false nofun not_firstOffence_nil
  | simple :: rest => by
    have first := Simple.reports_matcher simple
    rw [Simple.matchers, Simple.partsAll]
    cases compiled : simple.matcher with
    | error fault =>
      rw [compiled] at first
      exact first.error_append
    | ok m =>
      rw [compiled] at first
      exact first.ok_append (Simple.reports_matchers rest).map

end

/-! ## Chains and lists -/

theorem Chain.reports_matcher (chain : Chain) : Reports chain.matcher chain.simples := by
  induction chain with
  | single subject => exact (Simple.reports_matchers subject).map
  | joined left k subject ih =>
    have own : Reports (Compound.matcher subject) (Simple.partsAll subject) :=
      (Simple.reports_matchers subject).map
    rw [Chain.matcher, Chain.simples]
    cases compiled : left.matcher with
    | error fault =>
      rw [compiled] at ih
      exact ih.error_append
    | ok relative =>
      rw [compiled] at ih
      refine ih.ok_append ?_
      cases compiledOwn : Compound.matcher subject with
      | error fault =>
        rw [compiledOwn] at own
        exact own
      | ok m =>
        rw [compiledOwn] at own
        exact own.of_ok _

theorem Selector.reports_compile (s : Selector) : Reports s.compile s.chain.simples :=
  s.chain.reports_matcher.map

/-- The simple selectors of several selectors, in the order they are written. -/
def simplesOf (selectors : List Selector) : List Simple :=
  selectors.flatMap fun s => s.chain.simples

theorem reports_compileAll (selectors : List Selector) :
    Reports (compileAll selectors) (simplesOf selectors) := by
  induction selectors with
  | nil => exact fun _ => iff_of_false nofun not_firstOffence_nil
  | cons s rest ih =>
    have first := s.reports_compile
    rw [compileAll, simplesOf, List.flatMap_cons]
    cases compiled : s.compile with
    | error fault =>
      rw [compiled] at first
      exact first.error_append
    | ok c =>
      rw [compiled] at first
      exact first.ok_append ih.map

section Texts

variable {text : String} {table : Namespaces} {selectors : List Selector}

/-- A text that can be read has no faults but those of its selectors. -/
theorem compileList_eq_error_iff (parsed : parse text table = .ok selectors) {e : SelectorError} :
    compileList text table = .error e ↔
      ∃ fault, e = .compile fault ∧ FirstOffence (simplesOf selectors) fault := by
  have reports := reports_compileAll selectors
  unfold compileList
  rw [parsed]
  dsimp only
  cases compiled : compileAll selectors with
  | error fault =>
    rw [compiled] at reports
    constructor
    · intro same
      cases same
      exact ⟨fault, rfl, (reports fault).1 rfl⟩
    · intro ⟨other, same, first⟩
      cases (reports other).2 first
      rw [same]
  | ok cs =>
    rw [compiled] at reports
    exact iff_of_false nofun fun ⟨fault, _, first⟩ => nomatch (reports fault).2 first

theorem mem_simplesOf_iff {simple : Simple} :
    simple ∈ simplesOf selectors ↔ ∃ s ∈ selectors, simple ∈ s.chain.simples := by
  rw [simplesOf, List.mem_flatMap]

/-- **The first offence is reported, and every one counts.** A selector fails to compile if and only
if a simple selector offends anywhere in it, and its fault is that of the first one that is written.
So does a text that can be read, with the first one in its whole list. A text that cannot be read
gives the fault that was found in reading it. -/
theorem compile_reports_first_offence :
    (∀ s : Selector,
      ((∃ fault, s.compile = .error fault) ↔ ∃ simple ∈ s.chain.simples, simple.Offending) ∧
      ∀ fault, s.compile = .error fault ↔ FirstOffence s.chain.simples fault) ∧
    (∀ text table selectors, parse text table = .ok selectors →
      ((∃ e, compileList text table = .error e) ↔
        ∃ s ∈ selectors, ∃ simple ∈ s.chain.simples, simple.Offending) ∧
      ∀ e, compileList text table = .error e ↔
        ∃ fault, e = .compile fault ∧ FirstOffence (simplesOf selectors) fault) ∧
    ∀ text table e, parse text table = .error e → compileList text table = .error (.parse e) := by
  refine ⟨fun s => ⟨?_, s.reports_compile⟩, fun text table selectors parsed => ⟨?_, fun e => ?_⟩,
    fun text table e unread => ?_⟩
  · rw [← exists_firstOffence_iff]
    exact exists_congr s.reports_compile
  · have somewhere : (∃ fault, FirstOffence (simplesOf selectors) fault) ↔
        ∃ s ∈ selectors, ∃ simple ∈ s.chain.simples, simple.Offending := by
      rw [exists_firstOffence_iff]
      constructor
      · intro ⟨simple, member, offending⟩
        obtain ⟨s, inside, member⟩ := mem_simplesOf_iff.1 member
        exact ⟨s, inside, simple, member, offending⟩
      · intro ⟨s, inside, simple, member, offending⟩
        exact ⟨simple, mem_simplesOf_iff.2 ⟨s, inside, member⟩, offending⟩
    rw [← somewhere]
    constructor
    · intro ⟨e, failed⟩
      obtain ⟨fault, _, first⟩ := (compileList_eq_error_iff parsed).1 failed
      exact ⟨fault, first⟩
    · intro ⟨fault, first⟩
      exact ⟨.compile fault, (compileList_eq_error_iff parsed).2 ⟨fault, rfl, first⟩⟩
  · exact compileList_eq_error_iff parsed
  · rw [compileList, unread]

/-- In `:hover :not(:x), [*|y]` the pseudo-class in the negation is reported and not the attribute,
though its selector never matches. In `:x,` the selector that is missing is reported. -/
theorem first_offence_of_hovered_negation :
    (∃ selectors, parse ":hover :not(:x), [*|y]" {} = .ok selectors ∧
      compileList ":hover :not(:x), [*|y]" {} = .error (.compile (.unknownPseudoClass "x")) ∧
      FirstOffence (simplesOf selectors) (.unknownPseudoClass "x")) ∧
    ∃ e, parse ":x," {} = .error e ∧ compileList ":x," {} = .error (.parse e) := by
  obtain ⟨_, texts, unread⟩ := compile_reports_first_offence
  have read : (parse ":hover :not(:x), [*|y]" {}).isOk = true := by decide +kernel
  have reported : (match compileList ":hover :not(:x), [*|y]" {} with
      | .error e => some e
      | .ok _ => none) = some (.compile (.unknownPseudoClass "x")) := by decide +kernel
  have missing : (parse ":x," {}).isOk = false := by decide +kernel
  refine ⟨?_, ?_⟩
  · cases parsed : parse ":hover :not(:x), [*|y]" {} with
    | error e =>
      rw [parsed] at read
      cases read
    | ok selectors =>
      cases compiled : compileList ":hover :not(:x), [*|y]" {} with
      | ok cs =>
        rw [compiled] at reported
        cases reported
      | error e =>
        rw [compiled] at reported
        cases reported
        obtain ⟨fault, same, first⟩ := ((texts _ _ selectors parsed).2 _).1 compiled
        cases same
        exact ⟨selectors, rfl, rfl, first⟩
  · cases parsed : parse ":x," {} with
    | ok selectors =>
      rw [parsed] at missing
      cases missing
    | error e => exact ⟨e, rfl, unread _ _ e parsed⟩

end Texts

end Selectors
