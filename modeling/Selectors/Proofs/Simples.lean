import Selectors.Selector

/-!
The simple selectors in a selector, those in negations included, and how many of each kind there
are. Specificity is added up along the tree; counted over the list of simple selectors it is the
same (`Chain.specificity_eq`), with one more for a pseudo-element (`Selector.ofChain_eq`).
-/

namespace Selectors

/-! ## Listing -/

mutual

/-- A simple selector and all that are written inside it. -/
def Simple.parts : Simple → List Simple
  | .negation inner => .negation inner :: Simple.partsAll inner
  | simple => [simple]

/-- Simple selectors and all that are written inside them, in the order they are written. -/
def Simple.partsAll : List Simple → List Simple
  | [] => []
  | simple :: rest => simple.parts ++ Simple.partsAll rest

end

/-- The simple selectors in a chain, those in negations included, in the order they are written. -/
def Chain.simples : Chain → List Simple
  | .single subject => Simple.partsAll subject
  | .joined left _ subject => left.simples ++ Simple.partsAll subject

theorem Simple.partsAll_append (c d : List Simple) :
    Simple.partsAll (c ++ d) = Simple.partsAll c ++ Simple.partsAll d := by
  induction c with
  | nil => rfl
  | cons simple rest ih =>
    rw [List.cons_append, Simple.partsAll, Simple.partsAll, ih, List.append_assoc]

/-! ## Counting -/

namespace Simple

def isId : Simple → Bool
  | .id _ => true
  | _ => false

/-- It is a class, an attribute or a pseudo-class. A negation is none of these. -/
def isClassLike : Simple → Bool
  | .className _ => true
  | .hasAttribute _ => true
  | .pseudoClass _ => true
  | .functional _ _ => true
  | _ => false

def isTypeName : Simple → Bool
  | .typeName _ => true
  | _ => false

end Simple

/-- How many identifiers, how many classes, attributes and pseudo-classes, and how many type names
there are among simple selectors. -/
def Specificity.ofSimples (simples : List Simple) : Specificity where
  ids := simples.countP (·.isId)
  classes := simples.countP (·.isClassLike)
  types := simples.countP (·.isTypeName)

theorem Specificity.ofSimples_append (front back : List Simple) :
    ofSimples (front ++ back) = ofSimples front + ofSimples back := by
  simp only [ofSimples, List.countP_append, add_def]

mutual

theorem Simple.specificity_eq : ∀ simple : Simple,
    simple.specificity = .ofSimples simple.parts
  | .negation inner => by
    rw [Simple.specificity, Simple.parts, Simple.specificitySum_eq inner]
    rfl
  | .typeName _ | .inNamespace _ | .className _ | .id _ | .hasAttribute _ | .pseudoClass _
  | .functional _ _ => by
    rw [Simple.specificity, Simple.parts]
    · rfl
    · nofun

theorem Simple.specificitySum_eq : ∀ simples : List Simple,
    Simple.specificitySum simples = .ofSimples (Simple.partsAll simples)
  | [] => rfl
  | simple :: rest => by
    rw [Simple.specificitySum, Simple.partsAll, Specificity.ofSimples_append,
      Simple.specificity_eq simple, Simple.specificitySum_eq rest]

end

theorem Chain.specificity_eq (chain : Chain) :
    chain.specificity = .ofSimples chain.simples := by
  induction chain with
  | single subject => exact Simple.specificitySum_eq subject
  | joined left _ subject ih =>
    rw [specificity, simples, Specificity.ofSimples_append, ih, Simple.specificitySum_eq]

/-- The counts of a selector with this chain, a pseudo-element being one more type name. -/
def Chain.tally (chain : Chain) (pseudoElement? : Option String) : Specificity where
  ids := chain.simples.countP (·.isId)
  classes := chain.simples.countP (·.isClassLike)
  types := chain.simples.countP (·.isTypeName) + pseudoElement?.toList.length

theorem Selector.ofChain_eq (chain : Chain) (pseudoElement? : Option String) :
    Selector.ofChain chain pseudoElement? =
      ⟨chain, chain.tally pseudoElement?, pseudoElement?⟩ := by
  rw [Selector.ofChain, chain.specificity_eq]
  cases pseudoElement? <;> rfl

end Selectors
