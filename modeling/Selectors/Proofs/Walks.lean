import Mathlib.Logic.Relation
import Selectors.Document.Navigation
import Selectors.Proofs.Basic

/-!
Walks along the links of a document: what stands at the start of a walk, and where a walk leads.
A walk is cut off after as many steps as there are nodes. Along a link that never comes back to
where it started the nodes of a walk differ, so nothing is lost by that (`mem_trail_iff`).
-/

namespace Selectors

/-! ## Links -/

/-- Following a link from `a`, once or more often, leads to `b`. -/
def Leads (link : NodeId → Option NodeId) : NodeId → NodeId → Prop :=
  Relation.TransGen fun a b => link a = some b

/-- No walk along a link comes back to where it started. -/
def Acyclic (link : NodeId → Option NodeId) : Prop := ∀ id, ¬ Leads link id id

variable {link other : NodeId → Option NodeId} {start : Option NodeId} {fuel bound : Nat}
variable {a b c : NodeId}

theorem leads_of_mem_trail (member : b ∈ trail link fuel (link a)) : Leads link a b := by
  induction fuel generalizing a with
  | zero => cases member
  | succ fuel ih =>
    cases step : link a with
    | none =>
      rw [step, trail] at member
      cases member
    | some first =>
      rw [step, trail, List.mem_cons] at member
      rcases member with here | later
      · exact .single (here ▸ step)
      · exact .head step (ih later)

theorem nodup_trail (acyclic : Acyclic link) : (trail link fuel (link a)).Nodup := by
  induction fuel generalizing a with
  | zero => exact List.nodup_nil
  | succ fuel ih =>
    cases link a with
    | none => exact List.nodup_nil
    | some first =>
      rw [trail, List.nodup_cons]
      exact ⟨fun member => acyclic first (leads_of_mem_trail member), ih⟩

/-- A walk that may be one step longer goes on behind every node of the shorter one. -/
theorem mem_trail_of_link (member : b ∈ trail link fuel start) (step : link b = some c) :
    c ∈ trail link (fuel + 1) start := by
  induction fuel generalizing start with
  | zero => cases member
  | succ fuel ih =>
    cases start with
    | none => cases member
    | some first =>
      rw [trail, List.mem_cons] at member ⊢
      rcases member with here | later
      · rw [← here, step, trail]
        exact Or.inr (List.mem_cons_self ..)
      · exact Or.inr (ih later)

/-- A walk that ended before its bound is not longer with a higher one. -/
theorem trail_succ_eq (ended : (trail link (fuel + 1) start).length ≤ fuel) :
    trail link (fuel + 1) start = trail link fuel start := by
  induction fuel generalizing start with
  | zero => exact List.length_eq_zero_iff.1 (Nat.le_zero.1 ended)
  | succ fuel ih =>
    cases start with
    | none => rfl
    | some first =>
      rw [trail, List.length_cons, Nat.add_le_add_iff_right] at ended
      rw [trail, ih ended]
      rfl

theorem length_trail_le (acyclic : Acyclic link) (inside : ∀ a b, link a = some b → b < bound) :
    (trail link fuel (link a)).length ≤ bound := by
  refine length_le_of_nodup_of_lt (nodup_trail acyclic) fun b member => ?_
  obtain ⟨c, -, step⟩ := Relation.TransGen.tail'_iff.1 (leads_of_mem_trail member)
  exact inside c b step

/-- Where nothing comes back, a walk bounded by the number of nodes meets every node that its link
leads to. -/
theorem mem_trail_iff (acyclic : Acyclic link) (inside : ∀ a b, link a = some b → b < bound) :
    b ∈ trail link bound (link a) ↔ Leads link a b := by
  constructor
  · exact leads_of_mem_trail
  · intro leads
    have complete : trail link (bound + 1) (link a) = trail link bound (link a) :=
      trail_succ_eq (length_trail_le acyclic inside)
    rw [← complete]
    induction leads with
    | single step =>
      rw [step, trail]
      exact List.mem_cons_self ..
    | tail _ step ih =>
      rw [complete] at ih
      exact mem_trail_of_link ih step

theorem trail_none : trail link fuel none = [] := by
  cases fuel <;> rfl

/-- Where nothing comes back, a walk bounded by the number of nodes is one step and the walk from
there. -/
theorem trail_eq (acyclic : Acyclic link) (inside : ∀ a b, link a = some b → b < bound) (a : NodeId) :
    trail link bound (link a) = (link a).elim [] fun b => b :: trail link bound (link b) := by
  have complete : trail link (bound + 1) (link a) = trail link bound (link a) :=
    trail_succ_eq (length_trail_le acyclic inside)
  rw [← complete]
  cases link a <;> rfl

/-- A link that gains one arrow stays without a way back, unless there was a way from the head of
the arrow to its tail. -/
theorem Acyclic.insert (acyclic : Acyclic link)
    (gained : ∀ x y, other x = some y → link x = some y ∨ (x = a ∧ y = b))
    (apart : b ≠ a) (clear : ¬ Leads link b a) : Acyclic other := by
  let Reaches := Relation.ReflTransGen fun x y => link x = some y
  have blocked : ¬ Reaches b a := by
    intro reaches
    rcases Relation.reflTransGen_iff_eq_or_transGen.1 reaches with same | leads
    · exact apart same.symm
    · exact clear leads
  -- the last use of the new arrow splits a walk
  have split {x y : NodeId} (leads : Leads other x y) :
      Leads link x y ∨ (Reaches x a ∧ Reaches b y) := by
    induction leads with
    | single step =>
      rcases gained _ _ step with old | ⟨atTail, atHead⟩
      · exact Or.inl (.single old)
      · exact Or.inr ⟨atTail ▸ .refl, atHead ▸ .refl⟩
    | tail _ step ih =>
      rcases gained _ _ step with old | ⟨atTail, atHead⟩
      · rcases ih with walk | ⟨before, behind⟩
        · exact Or.inl (.tail walk old)
        · exact Or.inr ⟨before, .tail behind old⟩
      · rcases ih with walk | ⟨-, behind⟩
        · exact Or.inr ⟨atTail ▸ walk.to_reflTransGen, atHead ▸ .refl⟩
        · exact absurd (atTail ▸ behind) blocked
  intro id back
  rcases split back with walk | ⟨before, behind⟩
  · exact acyclic id walk
  · exact blocked (behind.trans before)

/-! ## Parents -/

namespace Document

variable {doc : Document} {e : Element} {id parent : NodeId}

/-- A document in which some node has a parent is not empty. -/
theorem size_pos_of_parent? (h : doc.parent? id = some parent) : 0 < doc.size := by
  rw [parent?, Option.bind_eq_some_iff] at h
  obtain ⟨node, stored, -⟩ := h
  exact Nat.zero_lt_of_lt (Array.getElem?_eq_some_iff.1 stored).1

/-- The nearest ancestor is the parent. -/
theorem head?_ancestorElements : (doc.ancestorElements e).head? = doc.parentElement? e := by
  unfold ancestorElements ancestors parentElement?
  cases h : doc.parent? e.id with
  | none => cases doc.size <;> rfl
  | some parent =>
    obtain ⟨n, size⟩ := Nat.exists_eq_succ_of_ne_zero (Nat.ne_of_gt (size_pos_of_parent? h))
    rw [size, trail, leadingElements, Option.bind_some]
    cases doc.element? parent <;> rfl

end Document

end Selectors
