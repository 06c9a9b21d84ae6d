import Mathlib.Data.List.Nodup
import Mathlib.Data.List.Perm.Subperm

/-!
Facts about results and lists that several developments share.
-/

namespace Selectors

/-- A mapped result is a value exactly if the result was one. -/
theorem map_eq_ok_iff {ε α β : Type} {f : α → β} {x : Except ε α} {b : β} :
    x.map f = .ok b ↔ ∃ a, x = .ok a ∧ f a = b := by
  cases x with
  | error e => simp [Except.map]
  | ok a => simp [Except.map]

theorem map_eq_error_iff {ε α β : Type} {f : α → β} {x : Except ε α} {e : ε} :
    x.map f = .error e ↔ x = .error e := by
  cases x with
  | error e => simp [Except.map]
  | ok a => simp [Except.map]

theorem isSome_head?_iff_exists_mem {α : Type} {xs : List α} :
    xs.head?.isSome = true ↔ ∃ x, x ∈ xs := by
  rw [List.isSome_head?]
  constructor
  · exact List.exists_mem_of_ne_nil xs
  · rintro ⟨x, member⟩
    exact List.ne_nil_of_mem member

/-- The places of a list that is longer by one. -/
theorem getElem?_concat_iff {α : Type} {xs : List α} {a x : α} {i : Nat} :
    (xs ++ [a])[i]? = some x ↔ xs[i]? = some x ∨ (i = xs.length ∧ x = a) := by
  rw [List.getElem?_append]
  by_cases inside : i < xs.length
  · rw [if_pos inside]
    exact ⟨Or.inl, fun h => h.resolve_right fun ⟨same, _⟩ => by omega⟩
  · have outside : xs[i]? = none := List.getElem?_eq_none (Nat.le_of_not_lt inside)
    rw [if_neg inside, outside, List.getElem?_singleton]
    constructor
    · intro h
      split at h
      · cases h
        exact Or.inr ⟨by omega, rfl⟩
      · cases h
    · rintro (h | ⟨same, rfl⟩)
      · cases h
      · rw [if_pos (by omega)]

/-- The first place where a test holds, if it holds there and nowhere in front. -/
theorem findIdx?_append_cons {α : Type} {test : α → Bool} {front back : List α} {x : α}
    (before : ∀ y ∈ front, test y = false) (here : test x = true) :
    (front ++ x :: back).findIdx? test = some front.length := by
  rw [List.findIdx?_append, List.findIdx?_eq_none_iff.2 before, List.findIdx?_cons, if_pos here]
  simp

/-- A list of different numbers below a bound is no longer than the bound. -/
theorem length_le_of_nodup_of_lt {ids : List Nat} {bound : Nat} (distinct : ids.Nodup)
    (inside : ∀ id ∈ ids, id < bound) : ids.length ≤ bound := by
  have covered : ids ⊆ List.range bound := fun id member => List.mem_range.2 (inside id member)
  have fits := (distinct.subperm covered).length_le
  rwa [List.length_range] at fits

/-- The value under a key, in a list that is longer by one entry. -/
theorem lookup_cons_ite {α β : Type} [DecidableEq α] (entry : α × β) (rest : List (α × β))
    (key : α) :
    (entry :: rest).lookup key = if key = entry.1 then some entry.2 else rest.lookup key := by
  rw [List.lookup_cons]
  by_cases same : key = entry.1
  · rw [if_pos same, beq_iff_eq.2 same]
  · rw [if_neg same, beq_eq_false_iff_ne.2 same]

theorem nodup_eraseDups {α : Type} [BEq α] [LawfulBEq α] (xs : List α) : xs.eraseDups.Nodup := by
  induction count : xs.length using Nat.strongRecOn generalizing xs with
  | ind n ih =>
    cases xs with
    | nil => exact List.nodup_nil
    | cons x rest =>
      have shorter : (rest.filter fun y => !y == x).length < n := by
        rw [← count]
        exact Nat.lt_succ_of_le (List.length_filter_le _ _)
      rw [List.eraseDups_cons]
      exact List.nodup_cons.2 ⟨by simp, ih _ shorter _ rfl⟩

/-- An array is what is found at its places. -/
theorem filterMap_range_getElem? {α : Type} (xs : Array α) :
    (List.range xs.size).filterMap (xs[·]?) = xs.toList := by
  have lookups : (List.range xs.size).map (xs[·]?) = xs.toList.map some := by
    refine List.ext_getElem (by simp) fun i inside _ => ?_
    simp only [List.length_map, List.length_range] at inside
    simp [inside]
  calc
    (List.range xs.size).filterMap (xs[·]?) = ((List.range xs.size).map (xs[·]?)).filterMap id := by
      rw [List.filterMap_map, Function.id_comp]
    _ = xs.toList := by rw [lookups, List.filterMap_map, Function.id_comp, List.filterMap_some]

/-- Looking up distinct places, among them the ones of all members that pass a test, finds these
members once each. -/
theorem filter_lookups_perm {α : Type} {xs : Array α} {places : List Nat} {p : α → Bool}
    (distinct : places.Nodup)
    (complete : ∀ (i : Nat) x, xs[i]? = some x → p x = true → i ∈ places) :
    ((places.filterMap (xs[·]?)).filter p).Perm (xs.toList.filter p) := by
  let passes (i : Nat) : Bool := (xs[i]?).any p
  have narrow (is : List Nat) :
      (is.filterMap (xs[·]?)).filter p = (is.filter passes).filterMap (xs[·]?) := by
    rw [List.filter_filterMap, List.filterMap_filter]
    congr 1
    funext i
    cases h : xs[i]? <;> simp [passes, h, Option.filter]
  have same : (places.filter passes).Perm ((List.range xs.size).filter passes) := by
    refine (List.perm_ext_iff_of_nodup (distinct.filter _) (List.nodup_range.filter _)).2 ?_
    intro i
    rw [List.mem_filter, List.mem_filter, List.mem_range]
    refine and_congr_left fun passed => ?_
    obtain ⟨x, found, passed⟩ := Option.any_eq_true _ _ |>.1 passed
    exact iff_of_true (complete i x found passed) (Array.getElem?_eq_some_iff.1 found).1
  rw [narrow, ← filterMap_range_getElem? xs, narrow]
  exact same.filterMap _

end Selectors
