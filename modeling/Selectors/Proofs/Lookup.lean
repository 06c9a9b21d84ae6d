import Mathlib.Data.List.Induction
import Selectors.Index
import Selectors.Proofs.Hints

/-!
Looking up the selectors of an index gives what putting every added selector to the element would
give. `Index.Filed` ties an index to the additions it was made by: which entries it holds, and that
each is filed in the bucket of its most selective hint. One addition keeps it (`Filed.add`), so the
index of any run of additions has it (`filed_ofAdditions`). As hints are sound, an element visits
the bucket of every selector that it matches (`mem_candidates_of_agrees`).
-/

namespace Selectors

variable {α : Type}

/-! ## The order of matches -/

/-- A match comes before another one in the cascade. -/
def Match.Precedes (m n : Match α) : Prop :=
  (m.specificity.le n.specificity = true ∧ m.specificity ≠ n.specificity) ∨
    (m.specificity = n.specificity ∧ m.order < n.order)

theorem Match.le_iff {m n : Match α} :
    m.le n = true ↔ m.specificity.le n.specificity = true ∧
      (n.specificity.le m.specificity = true → m.order ≤ n.order) := by
  unfold Match.le
  by_cases same : m.specificity = n.specificity
  · rw [if_pos same, decide_eq_true_eq, same]
    have self : n.specificity.le n.specificity = true := by
      simpa using Specificity.le_total n.specificity n.specificity
    simp [self]
  · rw [if_neg same]
    constructor
    · intro le
      exact ⟨le, fun ge => absurd (Specificity.le_antisymm le ge) same⟩
    · exact And.left

theorem Match.le_total (m n : Match α) : (m.le n || n.le m) = true := by
  have total := Specificity.le_total m.specificity n.specificity
  rw [Bool.or_eq_true] at total ⊢
  rw [Match.le_iff, Match.le_iff]
  by_cases le : m.specificity.le n.specificity = true
  · by_cases ge : n.specificity.le m.specificity = true
    · rcases Nat.le_total m.order n.order with before | before
      · exact Or.inl ⟨le, fun _ => before⟩
      · exact Or.inr ⟨ge, fun _ => before⟩
    · exact Or.inl ⟨le, fun h => absurd h ge⟩
  · exact Or.inr ⟨total.resolve_left le, fun h => absurd h le⟩

theorem Match.le_trans (l m n : Match α) (hlm : l.le m = true) (hmn : m.le n = true) :
    l.le n = true := by
  rw [Match.le_iff] at *
  refine ⟨Specificity.le_trans hlm.1 hmn.1, fun back => ?_⟩
  have first := hlm.2 (Specificity.le_trans hmn.1 back)
  have second := hmn.2 (Specificity.le_trans back hlm.1)
  exact Nat.le_trans first second

/-- Matches of different turns that are in order are strictly so. -/
theorem Match.precedes_of_le {m n : Match α} (le : m.le n = true) (turns : m.order ≠ n.order) :
    m.Precedes n := by
  rw [Match.le_iff] at le
  by_cases same : m.specificity = n.specificity
  · have before := le.2 (same ▸ le.1)
    exact Or.inr ⟨same, Nat.lt_of_le_of_ne before turns⟩
  · exact Or.inl ⟨le.1, same⟩

namespace Index

/-! ## Additions -/

/-- The index that a run of additions makes of the empty one. -/
def ofAdditions (additions : List (Compiled × α)) : Index α :=
  additions.foldl (fun index a => (index.add a.1 a.2).1) {}

/-- The entries that a run of additions leaves. A selector that never matches leaves none but takes
its turn. -/
def entriesOf (additions : List (Compiled × α)) : List (Entry α) :=
  (additions.zipIdx.filter fun a => !a.1.1.neverMatches).map fun a => ⟨a.1.1, a.2, a.1.2⟩

/-- What is told about every added selector that accepts an element, in the order of the
additions. -/
def matchesOf (additions : List (Compiled × α)) (doc : Document) (e : Element) : List (Match α) :=
  (additions.zipIdx.filter fun a => a.1.1.accepts doc e).map fun a =>
    ⟨a.1.1.specificity, a.2, a.1.1.pseudoElement?, a.1.2⟩

/-- The bucket of the most selective hint there is. -/
def bucket (index : Index α) (hints : Hints) : List Nat :=
  match hints with
  | { id? := some value, .. } => index.byId.get value
  | { className? := some name, .. } => index.byClass.get name
  | { typeName? := some name, .. } => index.byTypeName.get name
  | { namespaceUrl? := some url, .. } => index.byNamespace.get url
  | _ => index.unhinted

/-- An index holds what a run of additions leaves, each entry filed under its hints. -/
structure Filed (index : Index α) (additions : List (Compiled × α)) : Prop where
  entries : index.entries.toList = entriesOf additions
  nextOrder : index.nextOrder = additions.length
  filed : ∀ (slot : Nat) entry, index.entries[slot]? = some entry →
    slot ∈ index.bucket entry.selector.hints

theorem entriesOf_concat (additions : List (Compiled × α)) (c : Compiled) (payload : α) :
    entriesOf (additions ++ [(c, payload)]) =
      entriesOf additions ++
        if c.neverMatches then [] else [⟨c, additions.length, payload⟩] := by
  unfold entriesOf
  rw [List.zipIdx_append, List.filter_append, List.map_append]
  cases h : c.neverMatches <;> simp [h]

/-! ## Filing -/

theorem get_subset_add (b : Buckets) (key other : String) (slot : Nat) :
    b.get other ⊆ (b.add key slot).get other := by
  intro i member
  rw [Buckets.get_add]
  split
  · rename_i same
    exact List.mem_append_left _ (same ▸ member)
  · exact member

/-- Filing takes nothing out of a bucket. -/
theorem bucket_subset_file (index : Index α) (hints other : Hints) (slot : Nat) :
    index.bucket other ⊆ (index.file hints slot).bucket other := by
  unfold file bucket
  split <;> split <;>
    simp only [get_subset_add, List.Subset.refl, List.subset_append_left]

/-- A filed slot is in the bucket it was filed under. -/
theorem mem_bucket_file (index : Index α) (hints : Hints) (slot : Nat) :
    slot ∈ (index.file hints slot).bucket hints := by
  unfold file bucket
  split <;> simp [Buckets.get_add]

@[simp]
theorem entries_file (index : Index α) (hints : Hints) (slot : Nat) :
    (index.file hints slot).entries = index.entries := by
  unfold file
  split <;> rfl

@[simp]
theorem nextOrder_file (index : Index α) (hints : Hints) (slot : Nat) :
    (index.file hints slot).nextOrder = index.nextOrder := by
  unfold file
  split <;> rfl

/-- An addition keeps an index filed: what was in a bucket stays there, and the new entry goes into
the bucket of its hints. -/
theorem Filed.add {index : Index α} {additions : List (Compiled × α)} (h : index.Filed additions)
    (c : Compiled) (payload : α) :
    (index.add c payload).1.Filed (additions ++ [(c, payload)]) := by
  have turns : index.nextOrder + 1 = (additions ++ [(c, payload)]).length := by
    rw [h.nextOrder, List.length_append, List.length_singleton]
  unfold Index.add
  by_cases never : c.neverMatches = true
  · rw [if_pos never]
    refine ⟨?_, turns, h.filed⟩
    rw [entriesOf_concat, if_pos never, List.append_nil]
    exact h.entries
  · rw [if_neg never]
    refine ⟨?_, ?_, ?_⟩
    · simp only [entries_file, Array.toList_push]
      rw [entriesOf_concat, if_neg never, h.entries, h.nextOrder]
    · simp only [nextOrder_file]
      exact turns
    · intro slot entry found
      simp only [entries_file] at found
      rw [Array.getElem?_push] at found
      split at found
      · rename_i last
        cases found
        subst last
        exact mem_bucket_file _ _ _
      · exact bucket_subset_file _ _ _ _ (h.filed slot entry found)

/-- Every run of additions files its selectors. -/
theorem filed_ofAdditions (additions : List (Compiled × α)) :
    (ofAdditions additions).Filed additions := by
  induction additions using List.reverseRecOn with
  | nil => exact ⟨rfl, rfl, fun slot entry found => by simp [ofAdditions] at found⟩
  | append_singleton additions a ih =>
    rw [ofAdditions, List.foldl_concat]
    exact ih.add a.1 a.2

/-! ## Candidates -/

/-- An element that has what the hints name visits their bucket. -/
theorem mem_candidates_of_agrees {index : Index α} {hints : Hints} {data : ElementData} {slot : Nat}
    (agrees : hints.Agrees data) (filed : slot ∈ index.bucket hints) :
    slot ∈ index.candidates data := by
  unfold candidates
  rw [List.mem_eraseDups]
  simp only [List.mem_append, List.mem_flatMap]
  unfold bucket at filed
  split at filed
  · rename_i value _ _ _
    have own := agrees.id value rfl
    simp [own, filed]
  · rename_i name _ _ _
    exact Or.inl (Or.inl (Or.inr ⟨name, agrees.className name rfl, filed⟩))
  · rename_i name _ _ _
    rw [← agrees.typeName name rfl] at filed
    exact Or.inl (Or.inr filed)
  · rename_i url _ _ _
    rw [← agrees.namespaceUrl url rfl] at filed
    exact Or.inr filed
  · exact Or.inl (Or.inl (Or.inl (Or.inl filed)))

/-! ## Lookups -/

variable {doc : Document} {e : Element}

theorem mem_entriesOf {additions : List (Compiled × α)} {entry : Entry α}
    (member : entry ∈ entriesOf additions) : (entry.selector, entry.payload) ∈ additions := by
  unfold entriesOf at member
  obtain ⟨a, kept, rfl⟩ := List.mem_map.1 member
  have place := List.mem_zipIdx_iff_getElem?.1 (List.mem_filter.1 kept).1
  exact List.mem_of_getElem? place

/-- The entries that accept an element tell what the added selectors that accept it do. -/
theorem accepting_entriesOf (additions : List (Compiled × α)) :
    ((entriesOf additions).filter fun entry => entry.selector.accepts doc e).map Entry.toMatch =
      matchesOf additions doc e := by
  unfold entriesOf matchesOf
  rw [List.filter_map, List.map_map, List.filter_filter]
  congr 1
  refine List.filter_congr fun a _ => ?_
  cases never : a.1.1.neverMatches with
  | false => simp
  | true => simp [Compiled.not_accepts_of_neverMatches never]

/-- Every added selector that accepts the element is found, once, whatever buckets the element
visits, and no other one is. -/
theorem lookup_perm {index : Index α} {additions : List (Compiled × α)} (h : index.Filed additions)
    (compiled : ∀ a ∈ additions, ∃ s : Selector, s.compile = .ok a.1) :
    (index.lookup doc e).Perm (matchesOf additions doc e) := by
  have complete (slot : Nat) (entry : Entry α) (found : index.entries[slot]? = some entry)
      (accepted : entry.selector.accepts doc e = true) : slot ∈ index.candidates e.data := by
    have member : entry ∈ entriesOf additions := by
      rw [← h.entries, Array.mem_toList_iff]
      exact Array.mem_of_getElem? found
    obtain ⟨s, source⟩ := compiled _ (mem_entriesOf member)
    have agrees := Compiled.agrees_of_accepts source accepted
    exact mem_candidates_of_agrees agrees (h.filed slot entry found)
  have found := filter_lookups_perm (p := fun entry : Entry α => entry.selector.accepts doc e)
    (nodup_eraseDups _) complete
  rw [h.entries] at found
  unfold lookup
  exact (List.mergeSort_perm _ _).trans (accepting_entriesOf additions ▸ found.map Entry.toMatch)

/-- The added selectors take different turns. -/
theorem nodup_order_matchesOf (additions : List (Compiled × α)) :
    ((matchesOf additions doc e).map Match.order).Nodup := by
  have turns : (additions.zipIdx.map Prod.snd).Nodup := by
    rw [List.zipIdx_map_snd]
    exact List.nodup_range'
  unfold matchesOf
  rw [List.map_map]
  exact turns.sublist (List.filter_sublist.map Prod.snd)

theorem pairwise_precedes_lookup {index : Index α} {additions : List (Compiled × α)}
    (found : (index.lookup doc e).Perm (matchesOf additions doc e)) :
    (index.lookup doc e).Pairwise Match.Precedes := by
  have sorted : (index.lookup doc e).Pairwise fun m n => m.le n = true :=
    List.pairwise_mergeSort Match.le_trans Match.le_total _
  have turns : (index.lookup doc e).Pairwise fun m n => m.order ≠ n.order :=
    List.pairwise_map.1 ((found.map Match.order).nodup_iff.2 (nodup_order_matchesOf additions))
  exact (sorted.and turns).imp fun ⟨le, other⟩ => Match.precedes_of_le le other

theorem size_of_filed {index : Index α} {additions : List (Compiled × α)}
    (h : index.Filed additions) :
    index.size = additions.countP fun a => !a.1.neverMatches := by
  have added : additions = additions.zipIdx.map Prod.fst := (List.zipIdx_map_fst 0 additions).symm
  rw [size, ← Array.length_toList, h.entries, entriesOf, List.length_map,
    ← List.countP_eq_length_filter]
  conv_rhs => rw [added, List.countP_map]
  rfl

/-- **An index agrees with putting every selector to the element.** What it finds is what every
added selector that accepts the element tells, once for each, in the order of the cascade; and its
size is the number of added selectors that can match. -/
theorem lookup_ofAdditions (additions : List (Compiled × α))
    (compiled : ∀ a ∈ additions, ∃ s : Selector, s.compile = .ok a.1)
    (doc : Document) (e : Element) :
    ((ofAdditions additions).lookup doc e).Perm (matchesOf additions doc e) ∧
      ((ofAdditions additions).lookup doc e).Pairwise Match.Precedes ∧
      (ofAdditions additions).size = additions.countP fun a => !a.1.neverMatches := by
  have filed := filed_ofAdditions additions
  have found : ((ofAdditions additions).lookup doc e).Perm (matchesOf additions doc e) :=
    lookup_perm filed compiled
  exact ⟨found, pairwise_precedes_lookup found, size_of_filed filed⟩

/-- An element with a class written twice, and the selectors `p:hover`, `.a` and `:not(i)`: the
first is dropped but takes its turn, the other two are found once. -/
theorem lookup_ofAdditions_repeated_class :
    let data := (ElementData.mk "p" none []).setAttribute "" "class" "a a"
    let doc := (Document.empty false).appendNew 0 (.element data)
    ∃ cs : List Compiled,
      compileAll [.ofChain (.single [.typeName "p", .pseudoClass "hover"]) none,
        .ofChain (.single [.className "a"]) none,
        .ofChain (.single [.negation [.typeName "i"]]) none] = .ok cs ∧
      (((ofAdditions cs.zipIdx).lookup doc ⟨1, data⟩).map Match.order).Perm [1, 2] ∧
      (ofAdditions cs.zipIdx).size = 2 := by
  intro data doc
  obtain ⟨cs, compiled, orders, count⟩ : ∃ cs : List Compiled,
      compileAll [.ofChain (.single [.typeName "p", .pseudoClass "hover"]) none,
        .ofChain (.single [.className "a"]) none,
        .ofChain (.single [.negation [.typeName "i"]]) none] = .ok cs ∧
      (matchesOf cs.zipIdx doc ⟨1, data⟩).map Match.order = [1, 2] ∧
      (cs.zipIdx.countP fun a => !a.1.neverMatches) = 2 := ⟨_, rfl, by decide, by decide⟩
  have sources (a : Compiled × Nat) (member : a ∈ cs.zipIdx) : ∃ s : Selector, s.compile = .ok a.1 :=
    exists_source_of_mem compiled (List.fst_mem_of_mem_zipIdx member)
  obtain ⟨found, -, size⟩ := lookup_ofAdditions cs.zipIdx sources doc ⟨1, data⟩
  refine ⟨cs, compiled, ?_, size.trans count⟩
  rw [← orders]
  exact found.map Match.order

end Index

end Selectors
