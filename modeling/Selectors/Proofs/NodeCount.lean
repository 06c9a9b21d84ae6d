import Selectors.Proofs.Elision

/-!
A document has no more nodes than its text has characters (`Document.size_le_length_of_load`). Every
described node comes from a string or an object, and a text is longer than its strings, arrays and
objects are many (`Json.parts_value?_lt`). What is left makes up for the document node.
-/

namespace Selectors

/-! ## Values in a text -/

namespace Json

mutual

/-- How many strings, arrays and objects a value is made of. -/
def parts : Json → Nat
  | .string _ => 1
  | .array items => 1 + partsOfItems items
  | .object members => 1 + partsOfMembers members
  | _ => 0

def partsOfItems : List Json → Nat
  | [] => 0
  | item :: rest => item.parts + partsOfItems rest

def partsOfMembers : List (String × Json) → Nat
  | [] => 0
  | (_, item) :: rest => item.parts + partsOfMembers rest

end

theorem length_lt_of_skipSpace_eq {c : Char} {cs rest : List Char}
    (start : skipSpace cs = c :: rest) : rest.length < cs.length := by
  have le := length_skipSpace_le cs
  rwa [start] at le

theorem parts_of_word? {cs : List Char} {r : Read Json cs} (found : word? cs = some r) :
    r.value.parts = 0 := by
  unfold word? at found
  split at found <;> cases found <;> rfl

mutual

/-- The text of a value is longer than its parts are many. -/
theorem parts_value?_lt {depth : Nat} {cs : List Char} {r : Read Json cs}
    (found : value? depth cs = some r) : r.value.parts + r.rest.length < cs.length := by
  unfold value? at found
  dsimp only at found
  split at found
  · -- a string
    rename_i rest start
    obtain ⟨s, -, rfl⟩ := Option.map_eq_some_iff.1 found
    have opened := length_lt_of_skipSpace_eq start
    have closed := s.lt
    simp only [parts]
    omega
  · -- an array
    rename_i rest start
    have opened := length_lt_of_skipSpace_eq start
    split at found
    · cases found
    split at found
    · rename_i close start
      cases found
      have closed := length_lt_of_skipSpace_eq start
      simp only [parts, partsOfItems]
      omega
    · obtain ⟨items, read, rfl⟩ := Option.map_eq_some_iff.1 found
      have inside := parts_items?_lt read
      simp only [parts]
      omega
  · -- an object
    rename_i rest start
    have opened := length_lt_of_skipSpace_eq start
    split at found
    · cases found
    split at found
    · rename_i close start
      cases found
      have closed := length_lt_of_skipSpace_eq start
      simp only [parts, partsOfMembers]
      omega
    · obtain ⟨members, read, rfl⟩ := Option.map_eq_some_iff.1 found
      have inside := parts_members?_lt read
      simp only [parts]
      omega
  · -- a word or a number
    have le := length_skipSpace_le cs
    split at found
    · rename_i w read
      cases found
      have lt := w.lt
      simp only [parts_of_word? read]
      omega
    · obtain ⟨n, -, rfl⟩ := Option.map_eq_some_iff.1 found
      have lt := n.lt
      simp only [parts]
      omega
termination_by (cs.length, 0)

theorem parts_items?_lt {depth : Nat} {cs : List Char} {r : Read (List Json) cs}
    (found : items? depth cs = some r) : partsOfItems r.value + r.rest.length < cs.length := by
  unfold items? at found
  split at found
  · cases found
  rename_i item read
  have first := parts_value?_lt read
  dsimp only at found
  split at found
  · rename_i rest start
    obtain ⟨more, readMore, rfl⟩ := Option.map_eq_some_iff.1 found
    have behind := length_lt_of_skipSpace_eq start
    have shorter : rest.length < cs.length := by omega
    have others := parts_items?_lt readMore
    simp only [partsOfItems]
    omega
  · rename_i rest start
    cases found
    have behind := length_lt_of_skipSpace_eq start
    simp only [partsOfItems]
    omega
  · cases found
termination_by (cs.length, 1)

theorem parts_members?_lt {depth : Nat} {cs : List Char} {r : Read (List (String × Json)) cs}
    (found : members? depth cs = some r) :
    partsOfMembers r.value + r.rest.length < cs.length := by
  unfold members? at found
  dsimp only at found
  split at found
  · rename_i quoted start
    have opened := length_lt_of_skipSpace_eq start
    split at found
    · cases found
    rename_i key readKey
    have closed := key.lt
    split at found
    · rename_i afterColon start
      have colon := length_lt_of_skipSpace_eq start
      split at found
      · cases found
      rename_i item read
      have shorter : afterColon.length < cs.length := by omega
      have first := parts_value?_lt read
      split at found
      · rename_i rest start
        obtain ⟨more, readMore, rfl⟩ := Option.map_eq_some_iff.1 found
        have behind := length_lt_of_skipSpace_eq start
        have shorter : rest.length < cs.length := by omega
        have others := parts_members?_lt readMore
        simp only [partsOfMembers]
        omega
      · rename_i rest start
        cases found
        have behind := length_lt_of_skipSpace_eq start
        simp only [partsOfMembers]
        omega
      · cases found
    · cases found
  · cases found
termination_by (cs.length, 1)

end

end Json

/-! ## Descriptions in a value -/

namespace Description

/-- A member that is read adds nothing below the element, unless it is an array of nodes. -/
theorem exists_of_elementMembers?_cons {key : String} {value : Json} {rest : List (String × Json)}
    {found m : Members} (read : elementMembers? found ((key, value) :: rest) = some m) :
    ∃ next, elementMembers? next rest = some m ∧ (next.children? = found.children? ∨
      ∃ items nodes, value = .array items ∧ ofItems? items = some nodes ∧
        next.children? = some nodes) := by
  unfold elementMembers? at read
  split at read
  case h_1 same => cases same
  case h_6 same =>
    cases same
    exact ⟨_, read, Or.inl rfl⟩
  all_goals
    rename_i same
    cases same
    split at read
  all_goals try cases read
  · exact ⟨_, read, Or.inl rfl⟩
  · exact ⟨_, read, Or.inl rfl⟩
  · exact ⟨_, read, Or.inl rfl⟩
  · split at read
    · exact ⟨_, read, Or.inl rfl⟩
    · cases read
  · split at read
    · rename_i nodes described
      exact ⟨_, read, Or.inr ⟨_, nodes, rfl, described, rfl⟩⟩
    · cases read

mutual

/-- A value describes no more nodes than it has parts. -/
theorem length_listing_le_parts : ∀ {value : Json} {d : Description}, ofJson? value = some d →
    d.listing.length ≤ value.parts
  | .string _, _, described => by
    cases described
    exact Nat.le_refl 1
  | .object members, _, described => by
    rw [Json.parts]
    rw [ofJson?, Option.or_eq_some_iff] at described
    rcases described with element | ⟨-, comment⟩
    · obtain ⟨m, read, named⟩ := Option.bind_eq_some_iff.1 element
      obtain ⟨name, -, rfl⟩ := Option.map_eq_some_iff.1 named
      have children := length_children_le_parts read
      have nothing : (listings ((none : Option (List Description)).getD [])).length = 0 := rfl
      rw [nothing] at children
      rw [listing, List.length_cons]
      omega
    · unfold comment? at comment
      split at comment <;> cases comment
      exact Nat.le_add_right 1 _
  | .null, _, described => by cases described
  | .bool _, _, described => by cases described
  | .number _, _, described => by cases described
  | .array _, _, described => by cases described
termination_by value => sizeOf value

theorem length_listings_le_parts : ∀ {items : List Json} {nodes : List Description},
    ofItems? items = some nodes → (listings nodes).length ≤ Json.partsOfItems items
  | [], _, described => by
    cases described
    exact Nat.le_refl 0
  | item :: rest, _, described => by
    rw [ofItems?] at described
    split at described
    · rename_i node nodes first others
      cases described
      have inFirst := length_listing_le_parts first
      have inOthers := length_listings_le_parts others
      rw [listings, List.length_append, Json.partsOfItems]
      omega
    · cases described
termination_by items => sizeOf items

theorem length_children_le_parts : ∀ {members : List (String × Json)} {found m : Members},
    elementMembers? found members = some m →
      (listings (m.children?.getD [])).length ≤
        (listings (found.children?.getD [])).length + Json.partsOfMembers members
  | [], _, _, read => by
    cases read
    exact Nat.le_add_right _ _
  | (key, value) :: rest, found, m, read => by
    obtain ⟨next, readRest, children⟩ := exists_of_elementMembers?_cons read
    have inRest := length_children_le_parts readRest
    rw [Json.partsOfMembers]
    rcases children with same | ⟨items, nodes, rfl, described, children⟩
    · rw [same] at inRest
      omega
    · have inItems := length_listings_le_parts described
      rw [children, Option.getD_some] at inRest
      rw [Json.parts]
      omega
termination_by members => sizeOf members

end

end Description

/-! ## Loaded documents -/

namespace Document

variable {doc : Document} {options : LoadOptions} {source : String} {d : Description}
  {warnings : List Warning}

theorem length_listing_lt_of_describe (described : describe source = .ok d) :
    d.listing.length < source.length := by
  unfold describe at described
  split at described
  · cases described
  rename_i value alone read
  obtain ⟨r, readValue, same⟩ := Option.map_eq_some_iff.1 read
  cases same
  split at described
  · cases described
  rename_i description found
  split at described
  · cases described
    have parts := Json.parts_value?_lt readValue
    have nodes := Description.length_listing_le_parts found
    rw [String.length_toList] at parts
    omega
  · cases described

/-- What was loaded keeps what its text describes. -/
theorem exists_keeps_of_load (loaded : load options source = (.ok doc, warnings)) :
    doc.Linked ∧ ∃ description, describe source = .ok description ∧
      doc.Keeps options description := by
  have result := congrArg Prod.fst loaded
  unfold load at result
  cases described : describe source with
  | error fault =>
    rw [described] at result
    cases result
  | ok description =>
    rw [described] at result
    cases description with
    | text | comment => cases result
    | element head inner =>
      obtain ⟨top, drawn, rfl⟩ := ofDescription_element_eq_ok_iff.1 result
      exact ⟨linked_ofOutline options top, _, rfl, keeps_ofOutline drawn⟩

/-- A loaded document has no more nodes than its text has characters. -/
theorem size_le_length_of_load (loaded : load options source = (.ok doc, warnings)) :
    doc.size ≤ source.length := by
  obtain ⟨-, description, described, keeps⟩ := exists_keeps_of_load loaded
  have fewer := length_listing_lt_of_describe described
  rw [keeps.size]
  omega

end Document

end Selectors
