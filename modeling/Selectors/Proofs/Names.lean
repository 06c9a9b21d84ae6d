import Mathlib.Data.List.Lex
import Mathlib.Data.List.TakeWhile
import Mathlib.Data.String.Basic
import Selectors.Description
import Selectors.Proofs.Basic

/-!
What the names in a described document stand for. `Denotes` says which namespace and which local
name a name is made of, and `IsName` that there are such; `splitName` finds them
(`splitName_eq_ok_iff`). `ElementHead.Describes` says what an element is like that was described: its
name, its namespace, and its attributes, of which several may be described under one name. Then the
key counts that is the last one in the order of bytes, which is the order of characters
(`bytes_lt_iff`).
-/

namespace Selectors

/-! ## The order of bytes -/

/-- The bytes of a text in UTF-8. -/
def bytes (text : String) : List UInt8 := text.toUTF8.data.toList

theorem bytes_eq_flatMap (text : String) :
    bytes text = text.toList.flatMap String.utf8EncodeChar := by
  rw [bytes, String.toUTF8_eq_toByteArray, ← String.utf8Encode_toList, List.utf8Encode,
    List.data_toByteArray]

theorem uint8_lt_iff {a b : Nat} : UInt8.ofNat a < UInt8.ofNat b ↔ a % 256 < b % 256 := by
  rw [UInt8.lt_iff_toNat_lt, UInt8.toNat_ofNat', UInt8.toNat_ofNat']

theorem uint8_inj {a b : Nat} : UInt8.ofNat a = UInt8.ofNat b ↔ a % 256 = b % 256 := by
  rw [← UInt8.toNat_inj, UInt8.toNat_ofNat', UInt8.toNat_ofNat']

/-- The bytes of a smaller character are smaller, whatever follows. A character with more bytes
starts with a greater one, and characters with as many have their higher bits first. -/
theorem utf8EncodeChar_append_lt {c d : Char} (less : c < d) (after after' : List UInt8) :
    String.utf8EncodeChar c ++ after < String.utf8EncodeChar d ++ after' := by
  have smaller : c.val.toNat < d.val.toNat := less
  have bound : d.val.toNat < 0x110000 := by
    have valid := d.valid
    unfold UInt32.isValidChar Nat.isValidChar at valid
    omega
  unfold String.utf8EncodeChar
  dsimp only
  -- one case for each pair of lengths that can occur
  generalize c.val.toNat = v at smaller
  generalize d.val.toNat = w at smaller bound
  split_ifs <;>
    simp only [List.cons_append, List.nil_append, List.cons_lt_cons_iff, uint8_lt_iff, uint8_inj] <;>
    simp (disch := omega) only [Nat.mod_eq_of_lt] <;> omega

theorem bytes_lt_of_lt {s t : String} (less : s < t) : bytes s < bytes t := by
  rw [String.lt_iff_toList_lt] at less
  rw [bytes_eq_flatMap, bytes_eq_flatMap]
  generalize s.toList = cs at less
  generalize t.toList = ds at less
  induction less with
  | @nil d rest =>
    rw [List.flatMap_cons]
    cases start : String.utf8EncodeChar d with
    | nil => exact absurd start String.utf8EncodeChar_ne_nil
    | cons b more => exact .nil
  | @cons c rest rest' _ ih =>
    rw [List.flatMap_cons, List.flatMap_cons]
    exact List.append_left_lt ih
  | @rel c rest d rest' smaller =>
    rw [List.flatMap_cons, List.flatMap_cons]
    exact utf8EncodeChar_append_lt smaller _ _

/-- Texts are in the order of their bytes. -/
theorem bytes_lt_iff {s t : String} : bytes s < bytes t ↔ s < t := by
  refine ⟨fun less => ?_, bytes_lt_of_lt⟩
  rcases lt_trichotomy s t with smaller | same | greater
  · exact smaller
  · subst same
    exact absurd less (List.lt_irrefl _)
  · exact absurd less (List.lt_asymm (bytes_lt_of_lt greater))

theorem bytes_le_iff {s t : String} : bytes s ≤ bytes t ↔ s ≤ t := by
  rw [← List.not_lt, ← not_lt, bytes_lt_iff]

/-! ## Names -/

/-- A name is made of a namespace, empty for none, and a local name. A name that starts with a brace
has the namespace between that brace and the first closing one, and behind it a local name that is
not empty. -/
inductive Denotes : String → String → String → Prop
  | plain {name : String} : name.toList.head? ≠ some '\x7b' → Denotes name "" name
  | qualified {name url localName : String} :
    name.toList = '\x7b' :: (url.toList ++ '\x7d' :: localName.toList) → '\x7d' ∉ url.toList →
    localName ≠ "" → Denotes name url localName

/-- The name is not one that opens a brace in vain. -/
def IsName (name : String) : Prop := ∃ url localName, Denotes name url localName

section Names

variable {name url localName : String}

theorem splitName_of_denotes (denotes : Denotes name url localName) :
    splitName name = .ok (url, localName) := by
  unfold splitName
  split
  · rename_i rest opened
    cases denotes with
    | plain start =>
      rw [opened] at start
      exact absurd rfl start
    | qualified shape closed notEmpty =>
      have inside : ∀ c ∈ url.toList, (c != '\x7d') = true := by
        intro c member
        rw [bne_iff_ne]
        exact fun same => closed (same ▸ member)
      have behind : rest.dropWhile (· != '\x7d') = '\x7d' :: localName.toList := by
        rw [(List.cons.inj (opened.symm.trans shape)).2, List.dropWhile_append_of_pos inside]
        rfl
      have between : rest.takeWhile (· != '\x7d') = url.toList := by
        rw [(List.cons.inj (opened.symm.trans shape)).2, List.takeWhile_append_of_pos inside]
        exact List.append_nil _
      rw [behind, between]
      split
      · rename_i nothing
        cases nothing
      · rename_i alone
        have empty := (List.cons.inj alone).2
        exact absurd (String.toList_eq_nil_iff.1 empty) notEmpty
      · rename_i more
        rw [← (List.cons.inj more).2, String.ofList_toList, String.ofList_toList]
  · rename_i notOpened
    cases denotes with
    | plain => rfl
    | qualified shape => exact absurd shape (notOpened _)

theorem denotes_of_splitName (found : splitName name = .ok (url, localName)) :
    Denotes name url localName := by
  unfold splitName at found
  split at found
  · rename_i rest shape
    have parts := List.takeWhile_append_dropWhile (p := (· != '\x7d')) (l := rest)
    split at found
    · cases found
    · cases found
    · rename_i stop more notNil dropped
      obtain ⟨rfl, rfl⟩ := Prod.mk.inj (Except.ok.inj found)
      have closing : stop = '\x7d' := by
        have first := List.head?_dropWhile_not (· != '\x7d') rest
        rw [dropped, List.head?_cons] at first
        simpa using first
      rw [dropped, closing] at parts
      refine .qualified ?_ ?_ ?_
      · rw [shape, String.toList_ofList, String.toList_ofList, parts]
      · intro member
        rw [String.toList_ofList] at member
        have before := List.mem_takeWhile_imp member
        exact absurd before (by decide)
      · intro empty
        rw [← String.toList_eq_nil_iff, String.toList_ofList] at empty
        exact notNil empty
  · rename_i plain
    obtain ⟨rfl, rfl⟩ := Prod.mk.inj (Except.ok.inj found)
    refine .plain fun start => ?_
    obtain ⟨rest, shape⟩ := List.head?_eq_some_iff.1 start
    exact plain rest shape

theorem splitName_eq_ok_iff : splitName name = .ok (url, localName) ↔ Denotes name url localName :=
  ⟨denotes_of_splitName, splitName_of_denotes⟩

end Names

/-- A name is made of a namespace and a local name in one way. -/
theorem Denotes.unique {name url localName url' localName' : String}
    (one : Denotes name url localName) (other : Denotes name url' localName') :
    url = url' ∧ localName = localName' := by
  have same := (splitName_of_denotes one).symm.trans (splitName_of_denotes other)
  exact Prod.mk.inj (Except.ok.inj same)

/-! ## Keys in order -/

section Keys

variable {α : Type} {key other : String} {value : α} {entries : List (String × α)}

/-- The keys grow from entry to entry. -/
def Ascending (entries : List (String × α)) : Prop := entries.Pairwise fun a b => a.1 < b.1

theorem Ascending.lookup_eq_some_iff (ascending : Ascending entries) :
    entries.lookup key = some value ↔ (key, value) ∈ entries := by
  rw [List.lookup_eq_some_iff]
  constructor
  · rintro ⟨front, back, rfl, -⟩
    exact List.mem_append_right _ (List.mem_cons_self ..)
  · intro member
    obtain ⟨front, back, rfl⟩ := List.append_of_mem member
    refine ⟨front, back, rfl, fun entry before => ?_⟩
    have less := (List.pairwise_append.1 ascending).2.2 entry before _ (List.mem_cons_self ..)
    exact bne_iff_ne.2 (ne_of_gt less)

theorem lookup_insertByKey :
    (insertByKey key value entries).lookup other =
      if other = key then some value else entries.lookup other := by
  induction entries with
  | nil => exact lookup_cons_ite ..
  | cons entry rest ih =>
    obtain ⟨k, v⟩ := entry
    rw [insertByKey]
    split
    · rename_i here
      subst here
      rw [lookup_cons_ite, lookup_cons_ite]
      by_cases same : other = key
      · rw [if_pos same, if_pos same]
      · rw [if_neg same, if_neg same, if_neg same]
    · rename_i apart
      split
      · exact lookup_cons_ite ..
      · rw [lookup_cons_ite, ih, lookup_cons_ite]
        by_cases same : other = key
        · subst same
          rw [if_neg apart, if_pos rfl, if_pos rfl]
        · rw [if_neg same, if_neg same]

theorem mem_insertByKey {entry : String × α} (member : entry ∈ insertByKey key value entries) :
    entry = (key, value) ∨ entry ∈ entries := by
  induction entries with
  | nil => exact Or.inl (List.mem_singleton.1 member)
  | cons first rest ih =>
    obtain ⟨k, v⟩ := first
    rw [insertByKey] at member
    split at member
    · rcases List.mem_cons.1 member with here | behind
      · exact Or.inl here
      · exact Or.inr (List.mem_cons_of_mem _ behind)
    · split at member
      · exact List.mem_cons.1 member
      · rcases List.mem_cons.1 member with here | behind
        · exact Or.inr (here ▸ List.mem_cons_self ..)
        · exact (ih behind).imp_right (List.mem_cons_of_mem _)

theorem Ascending.insertByKey (ascending : Ascending entries) :
    Ascending (insertByKey key value entries) := by
  induction entries with
  | nil => exact List.pairwise_singleton _ _
  | cons first rest ih =>
    obtain ⟨k, v⟩ := first
    obtain ⟨before, ascendingRest⟩ := List.pairwise_cons.1 ascending
    rw [Selectors.insertByKey]
    split
    · rename_i here
      subst here
      exact List.pairwise_cons.2 ⟨before, ascendingRest⟩
    · rename_i apart
      split
      · rename_i less
        refine List.pairwise_cons.2 ⟨fun entry member => ?_, ascending⟩
        rcases List.mem_cons.1 member with here | behind
        · exact here ▸ less
        · exact lt_trans less (before entry behind)
      · rename_i notLess
        refine List.pairwise_cons.2 ⟨fun entry member => ?_, ih ascendingRest⟩
        rcases mem_insertByKey member with new | old
        · exact new ▸ lt_of_le_of_ne (not_lt.1 notLess) (Ne.symm apart)
        · exact before entry old

theorem ascending_byKey (entries : List (String × α)) : Ascending (byKey entries) := by
  have run (sorted : List (String × α)) (ascending : Ascending sorted) : Ascending
      (entries.foldl (fun sorted entry => insertByKey entry.1 entry.2 sorted) sorted) := by
    induction entries generalizing sorted with
    | nil => exact ascending
    | cons entry rest ih => exact ih _ ascending.insertByKey
  exact run [] List.Pairwise.nil

/-- Under each key stands the value that was written last. -/
theorem lookup_byKey (entries : List (String × α)) (key : String) :
    (byKey entries).lookup key = entries.reverse.lookup key := by
  have run (sorted : List (String × α)) :
      (entries.foldl (fun sorted entry => insertByKey entry.1 entry.2 sorted) sorted).lookup key =
        (entries.reverse.lookup key).or (sorted.lookup key) := by
    induction entries generalizing sorted with
    | nil => rfl
    | cons entry rest ih =>
      rw [List.foldl_cons, ih, List.reverse_cons, List.lookup_append, Option.or_assoc]
      rw [lookup_insertByKey, lookup_cons_ite, List.lookup_nil]
      by_cases same : key = entry.1
      · rw [if_pos same, if_pos same, Option.some_or]
      · rw [if_neg same, if_neg same, Option.none_or]
  rw [byKey, run, List.lookup_nil, Option.or_none]

end Keys

/-! ## Attributes -/

section Attributes

variable {data data' : ElementData} {entries : List (String × String)}

/-- The namespaces and names of some attributes. -/
def attributeNames (attributes : List Attribute) : List (String × String) :=
  attributes.map fun a => (a.namespaceUrl, a.name)

theorem attributeNames_cons (a : Attribute) (rest : List Attribute) :
    attributeNames (a :: rest) = (a.namespaceUrl, a.name) :: attributeNames rest := rfl

/-- Setting an attribute puts its name behind the others, unless it is one of them. -/
theorem attributeNames_set (url name value : String) (attributes : List Attribute) :
    attributeNames (Attribute.set url name value attributes) =
      if (url, name) ∈ attributeNames attributes then attributeNames attributes
      else attributeNames attributes ++ [(url, name)] := by
  induction attributes with
  | nil => rfl
  | cons a rest ih =>
    rw [Attribute.set]
    by_cases here : a.isNamed url name = true
    · obtain ⟨rfl, rfl⟩ := Attribute.isNamed_iff.1 here
      rw [if_pos here, attributeNames_cons, attributeNames_cons, if_pos (List.mem_cons_self ..)]
    · have other : (url, name) ≠ (a.namespaceUrl, a.name) := fun same =>
        here (Attribute.isNamed_iff_eq.2 (Prod.mk.inj same))
      rw [if_neg here, attributeNames_cons, attributeNames_cons, ih]
      by_cases member : (url, name) ∈ attributeNames rest
      · rw [if_pos member, if_pos (List.mem_cons_of_mem _ member)]
      · rw [if_neg member, if_neg (List.not_mem_cons_of_ne_of_not_mem other member)]
        rfl

/-- Setting an attribute repeats no name. -/
theorem nodup_attributeNames_set {attributes : List Attribute} (url name value : String)
    (distinct : (attributeNames attributes).Nodup) :
    (attributeNames (Attribute.set url name value attributes)).Nodup := by
  rw [attributeNames_set]
  split
  · exact distinct
  · rename_i new
    rw [← List.concat_eq_append]
    exact distinct.concat new

theorem setAttributes_cons {key value url name : String} (denotes : Denotes key url name) :
    setAttributes data ((key, value) :: entries) =
      setAttributes (data.setAttribute url name value) entries := by
  rw [setAttributes, splitName_of_denotes denotes]

/-- Attributes whose keys are names can be set. -/
theorem exists_setAttributes_eq_ok (names : ∀ entry ∈ entries, IsName entry.1) :
    ∃ data', setAttributes data entries = .ok data' := by
  induction entries generalizing data with
  | nil => exact ⟨data, rfl⟩
  | cons entry rest ih =>
    obtain ⟨key, value⟩ := entry
    obtain ⟨url, name, denotes⟩ := names _ (List.mem_cons_self ..)
    rw [setAttributes_cons denotes]
    exact ih fun entry member => names entry (List.mem_cons_of_mem _ member)

/-- The first of the keys was taken apart, and the others are set behind it. -/
theorem exists_denotes_of_setAttributes {key value : String}
    (set : setAttributes data ((key, value) :: entries) = .ok data') :
    ∃ url name, Denotes key url name ∧
      setAttributes (data.setAttribute url name value) entries = .ok data' := by
  rw [setAttributes] at set
  split at set
  · cases set
  · rename_i url name split
    exact ⟨url, name, splitName_eq_ok_iff.1 split, set⟩

/-- Setting attributes leaves the name and the namespace of the element alone. -/
theorem sameName_of_setAttributes (set : setAttributes data entries = .ok data') :
    data'.name = data.name ∧ data'.namespaceUrl? = data.namespaceUrl? := by
  induction entries generalizing data with
  | nil =>
    cases set
    exact ⟨rfl, rfl⟩
  | cons entry rest ih =>
    obtain ⟨_, _, _, setRest⟩ := exists_denotes_of_setAttributes set
    have same := ih setRest
    exact same

theorem nodup_attributeNames_of_setAttributes (set : setAttributes data entries = .ok data')
    (distinct : (attributeNames data.attributes).Nodup) :
    (attributeNames data'.attributes).Nodup := by
  induction entries generalizing data with
  | nil =>
    cases set
    exact distinct
  | cons entry rest ih =>
    obtain ⟨url, name, _, setRest⟩ := exists_denotes_of_setAttributes set
    exact ih setRest (nodup_attributeNames_set url name _ distinct)

/-- Where several keys stand for one name, the greatest of them gives the value. -/
theorem getAttribute?_setAttributes (ascending : Ascending entries)
    (set : setAttributes data entries = .ok data') (url name value : String) :
    data'.getAttribute? url name = some value ↔
      (∃ key, (key, value) ∈ entries ∧ Denotes key url name ∧
        ∀ entry ∈ entries, Denotes entry.1 url name → entry.1 ≤ key) ∨
      ((∀ entry ∈ entries, ¬ Denotes entry.1 url name) ∧
        data.getAttribute? url name = some value) := by
  induction entries generalizing data with
  | nil =>
    cases set
    simp
  | cons first rest ih =>
    obtain ⟨key₀, value₀⟩ := first
    obtain ⟨url₀, name₀, denotes₀, setRest⟩ := exists_denotes_of_setAttributes set
    obtain ⟨before, ascendingRest⟩ := List.pairwise_cons.1 ascending
    rw [ih ascendingRest setRest, ElementData.getAttribute?_setAttribute]
    -- the first key counts only if no later one stands for the same name, for those are greater
    by_cases here : url = url₀ ∧ name = name₀
    · obtain ⟨rfl, rfl⟩ := here
      rw [if_pos ⟨rfl, rfl⟩, Option.some_inj]
      constructor
      · rintro (⟨key, member, denotes, greatest⟩ | ⟨alone, rfl⟩)
        · refine Or.inl ⟨key, List.mem_cons_of_mem _ member, denotes, ?_⟩
          exact List.forall_mem_cons.2 ⟨fun _ => (before _ member).le, greatest⟩
        · refine Or.inl ⟨key₀, List.mem_cons_self .., denotes₀, ?_⟩
          exact List.forall_mem_cons.2
            ⟨fun _ => le_rfl, fun entry member denotes => absurd denotes (alone entry member)⟩
      · rintro (⟨key, member, denotes, greatest⟩ | ⟨alone, -⟩)
        · have greatestBehind := (List.forall_mem_cons.1 greatest).2
          rcases List.mem_cons.1 member with same | behind
          · obtain ⟨rfl, rfl⟩ := Prod.mk.inj same
            refine Or.inr ⟨fun entry member denotes => ?_, rfl⟩
            exact absurd (before entry member) (not_lt.2 (greatestBehind entry member denotes))
          · exact Or.inl ⟨key, behind, denotes, greatestBehind⟩
        · exact absurd denotes₀ (alone _ (List.mem_cons_self ..))
    · have other : ¬ Denotes key₀ url name := fun denotes => here (denotes.unique denotes₀)
      rw [if_neg here]
      constructor
      · rintro (⟨key, member, denotes, greatest⟩ | ⟨alone, found⟩)
        · refine Or.inl ⟨key, List.mem_cons_of_mem _ member, denotes, ?_⟩
          exact List.forall_mem_cons.2 ⟨fun denotes => absurd denotes other, greatest⟩
        · exact Or.inr ⟨List.forall_mem_cons.2 ⟨other, alone⟩, found⟩
      · rintro (⟨key, member, denotes, greatest⟩ | ⟨alone, found⟩)
        · have greatestBehind := (List.forall_mem_cons.1 greatest).2
          rcases List.mem_cons.1 member with same | behind
          · obtain ⟨rfl, rfl⟩ := Prod.mk.inj same
            exact absurd denotes other
          · exact Or.inl ⟨key, behind, denotes, greatestBehind⟩
        · exact Or.inr ⟨(List.forall_mem_cons.1 alone).2, found⟩

end Attributes

/-! ## Elements -/

/-- The namespace of an element: the one it is given, where an empty one means none; else the one in
its name; else, in an HTML document, the HTML namespace. -/
inductive BelongsTo (html : Bool) : Option String → String → Option String → Prop
  | given {url written : String} : url ≠ "" → BelongsTo html (some url) written (some url)
  | givenNone {written : String} : BelongsTo html (some "") written none
  | written {url : String} : url ≠ "" → BelongsTo html none url (some url)
  | html : html = true → BelongsTo html none "" (some htmlNamespace)
  | none : html = false → BelongsTo html none "" none

theorem belongsTo_elementNamespace? (html : Bool) (given : Option String) (written : String) :
    BelongsTo html given written (elementNamespace? html given written) := by
  unfold elementNamespace?
  cases given with
  | some url =>
    by_cases empty : url = ""
    · subst empty
      exact .givenNone
    · dsimp only
      rw [if_neg empty]
      exact .given empty
  | none =>
    by_cases empty : written = ""
    · subst empty
      cases html with
      | true => exact .html rfl
      | false => exact .none rfl
    · dsimp only
      rw [if_neg empty, if_neg empty]
      exact .written empty

/-- The described value of an attribute: the one that was written last under the key. -/
def ElementHead.attribute? (head : ElementHead) (key : String) : Option String :=
  head.attributes.reverse.lookup key

/-- The name of the element and the keys of its attributes are names. -/
structure ElementHead.Sound (head : ElementHead) : Prop where
  name : IsName head.name
  keys : ∀ entry ∈ head.attributes, IsName entry.1

/-- The data is what the head describes. An attribute has the value under the last of all keys that
stand for its name, in the order of their bytes, and there is one attribute of each name. -/
structure ElementHead.Describes (head : ElementHead) (html : Bool) (data : ElementData) : Prop where
  name : ∃ url, Denotes head.name url data.name ∧
    BelongsTo html head.namespaceUrl? url data.namespaceUrl?
  attributes : ∀ url name value, data.getAttribute? url name = some value ↔
    ∃ key, head.attribute? key = some value ∧ Denotes key url name ∧
      ∀ other, head.attribute? other ≠ none → Denotes other url name → bytes other ≤ bytes key
  distinct : (attributeNames data.attributes).Nodup

namespace ElementHead

variable {head : ElementHead} {html : Bool} {data : ElementData}

theorem mem_byKey_attributes_iff {key value : String} :
    (key, value) ∈ byKey head.attributes ↔ head.attribute? key = some value := by
  rw [← (ascending_byKey _).lookup_eq_some_iff, lookup_byKey, attribute?]

/-- A head without a broken name has data. -/
theorem Sound.exists_data_eq_ok (sound : head.Sound) : ∃ data, head.data html = .ok data := by
  obtain ⟨url, name, denotes⟩ := sound.name
  unfold ElementHead.data
  rw [splitName_of_denotes denotes]
  refine exists_setAttributes_eq_ok fun entry member => ?_
  have found := mem_byKey_attributes_iff.1 member
  obtain ⟨front, back, parts, -⟩ := List.lookup_eq_some_iff.1 found
  refine sound.keys entry (List.mem_reverse.1 ?_)
  rw [parts]
  exact List.mem_append_right _ (List.mem_cons_self ..)

/-- The data of a head is what it describes. -/
theorem describes_of_data_eq_ok (found : head.data html = .ok data) : head.Describes html data := by
  unfold ElementHead.data at found
  split at found
  · cases found
  · rename_i url name split
    obtain ⟨sameName, sameUrl⟩ := sameName_of_setAttributes found
    constructor
    case name =>
      rw [sameName, sameUrl]
      exact ⟨url, splitName_eq_ok_iff.1 split, belongsTo_elementNamespace? ..⟩
    case attributes =>
      intro url name value
      rw [getAttribute?_setAttributes (ascending_byKey _) found, or_iff_left (by rintro ⟨-, ⟨⟩⟩)]
      refine exists_congr fun key => and_congr mem_byKey_attributes_iff (and_congr_right fun _ => ?_)
      constructor
      · intro greatest other given denotes
        obtain ⟨written, given⟩ := Option.ne_none_iff_exists'.1 given
        exact bytes_le_iff.2 (greatest _ (mem_byKey_attributes_iff.2 given) denotes)
      · intro greatest entry member denotes
        have given := mem_byKey_attributes_iff.1 member
        exact bytes_le_iff.1 (greatest _ (Option.ne_none_iff_exists'.2 ⟨_, given⟩) denotes)
    case distinct => exact nodup_attributeNames_of_setAttributes found List.nodup_nil

end ElementHead

end Selectors
