import Selectors.Proofs.Names

/-!
The attributes of an element as a map that keeps the order of insertion. An element is built by
setting attributes, one after another (`ElementData.Built`), and the settings alone tell what its
attributes are (`ElementData.InsertionOrdered`): one for every name that was set, in the order in
which the names were set first (`Attribute.SetEarlier`), with the value that was set last
(`Attribute.LastSets`).

That no name occurs twice is not carried along by itself. It follows from the order, for no name is
set earlier than itself.
-/

namespace Selectors

/-! ## Settings -/

namespace Attribute

variable {attributes settings more : List Attribute} {url name value : String}
  {first second : String × String}

/-- The last of the settings of a name gave it the value. -/
def LastSets (settings : List Attribute) (url name value : String) : Prop :=
  ∃ front back, settings = front ++ ⟨url, name, value⟩ :: back ∧
    ∀ a ∈ back, a.isNamed url name = false

/-- There was a time when the first name was set already and the second one was not. -/
def SetEarlier (settings : List Attribute) (first second : String × String) : Prop :=
  ∃ front back, settings = front ++ back ∧ first ∈ attributeNames front ∧
    second ∉ attributeNames front

theorem SetEarlier.ne (earlier : SetEarlier settings first second) : first ≠ second := by
  obtain ⟨front, back, -, set, unset⟩ := earlier
  exact ne_of_mem_of_not_mem set unset

theorem SetEarlier.append (earlier : SetEarlier settings first second) :
    SetEarlier (settings ++ more) first second := by
  obtain ⟨front, back, rfl, set, unset⟩ := earlier
  exact ⟨front, back ++ more, List.append_assoc .., set, unset⟩

/-- The value that was set last is the first one when the settings are read backwards. -/
theorem get?_reverse_eq_some_iff :
    get? url name settings.reverse = some value ↔ LastSets settings url name value := by
  rw [get?, Option.map_eq_some_iff]
  constructor
  · rintro ⟨a, found, rfl⟩
    obtain ⟨named, back, front, parts, unnamed⟩ := List.find?_eq_some_iff_append.1 found
    obtain ⟨rfl, rfl⟩ := isNamed_iff.1 named
    refine ⟨front.reverse, back.reverse, ?_, fun b member => ?_⟩
    · rw [← List.reverse_reverse settings, parts]
      simp
    · simpa using unnamed b (List.mem_reverse.1 member)
  · rintro ⟨front, back, rfl, unnamed⟩
    refine ⟨⟨url, name, value⟩, List.find?_eq_some_iff_append.2 ⟨?_, back.reverse, front.reverse,
      by simp, fun b member => ?_⟩, rfl⟩
    · exact isNamed_iff.2 ⟨rfl, rfl⟩
    · simpa using unnamed b (List.mem_reverse.1 member)

theorem get?_reverse_eq_none_iff :
    get? url name settings.reverse = none ↔ ∀ a ∈ settings, a.isNamed url name = false := by
  rw [get?, Option.map_eq_none_iff, List.find?_eq_none]
  simp only [List.mem_reverse, Bool.not_eq_true]

/-- Among attributes with different names a value is found exactly if its attribute is there. -/
theorem get?_eq_some_iff_mem (distinct : (attributeNames attributes).Nodup) :
    get? url name attributes = some value ↔ ⟨url, name, value⟩ ∈ attributes := by
  induction attributes with
  | nil => simp [get?]
  | cons a rest ih =>
    obtain ⟨new, distinctRest⟩ := List.nodup_cons.1 distinct
    rw [get?_cons, List.mem_cons]
    by_cases here : a.isNamed url name = true
    · obtain ⟨rfl, rfl⟩ := isNamed_iff.1 here
      have absent : ⟨a.namespaceUrl, a.name, value⟩ ∉ rest := fun member =>
        new (List.mem_map.2 ⟨_, member, rfl⟩)
      rw [if_pos here, or_iff_left absent, Option.some_inj, eq_comm, Attribute.ext_iff]
      simp
    · have other : (⟨url, name, value⟩ : Attribute) ≠ a := fun same =>
        here (same ▸ isNamed_iff.2 ⟨rfl, rfl⟩)
      rw [if_neg here, ih distinctRest, or_iff_right other]

/-- What is found in a namespace is found among the attributes of this namespace. -/
theorem get?_filter (url name : String) (attributes : List Attribute) :
    get? url name (attributes.filter (·.namespaceUrl == url)) = get? url name attributes := by
  induction attributes with
  | nil => rfl
  | cons a rest ih =>
    rw [List.filter_cons, get?_cons]
    split
    · rw [get?_cons, ih]
    · rename_i apart
      have unnamed : ¬ a.isNamed url name = true := fun named =>
        apart (beq_iff_eq.2 (isNamed_iff.1 named).1)
      rw [if_neg unnamed, ih]

/-! ## What settings leave behind -/

/-- The attributes are what the settings leave behind. -/
structure LeftBy (settings attributes : List Attribute) : Prop where
  names : ∀ named, named ∈ attributeNames attributes ↔ named ∈ attributeNames settings
  ordered : (attributeNames attributes).Pairwise (SetEarlier settings)
  value : ∀ url name, get? url name attributes = get? url name settings.reverse

theorem LeftBy.nil : LeftBy [] [] := ⟨fun _ => Iff.rfl, List.Pairwise.nil, fun _ _ => rfl⟩

/-- One more setting replaces a value in its place, or it adds a name behind all others, which were
set earlier. -/
theorem LeftBy.set (left : LeftBy settings attributes) (a : Attribute) :
    LeftBy (settings ++ [a]) (Attribute.set a.namespaceUrl a.name a.value attributes) := by
  have kept : (attributeNames attributes).Pairwise (SetEarlier (settings ++ [a])) :=
    left.ordered.imp SetEarlier.append
  constructor
  case names =>
    intro named
    have longer : attributeNames (settings ++ [a]) =
        attributeNames settings ++ [(a.namespaceUrl, a.name)] := List.map_append
    rw [attributeNames_set, longer, List.mem_append, ← left.names]
    split
    · rename_i known
      refine (or_iff_left_of_imp fun here => ?_).symm
      rwa [List.mem_singleton.1 here]
    · rw [List.mem_append]
  case ordered =>
    rw [attributeNames_set]
    split
    · exact kept
    · rename_i new
      have unset : (a.namespaceUrl, a.name) ∉ attributeNames settings := by rwa [← left.names]
      refine List.pairwise_append.2 ⟨kept, List.pairwise_singleton .., fun named member => ?_⟩
      rw [List.forall_mem_singleton]
      exact ⟨settings, [a], rfl, (left.names named).1 member, unset⟩
  case value =>
    intro url name
    rw [get?_set, List.reverse_append, List.reverse_singleton, List.singleton_append, get?_cons,
      left.value]
    simp only [isNamed_iff_eq]

/-- No name is left behind twice. -/
theorem LeftBy.nodup (left : LeftBy settings attributes) : (attributeNames attributes).Nodup :=
  left.ordered.imp SetEarlier.ne

end Attribute

/-! ## Elements that are built -/

namespace ElementData

open Attribute

variable {e f : ElementData} {settings others : List Attribute}

/-- The element was built by setting these attributes, in this order. Setting an attribute of an
element and making another element that has it set are the same; moving an element into a namespace
sets none. -/
inductive Built : ElementData → List Attribute → Prop
  | ofName (name : String) : Built (.ofName name) []
  | ofHtmlName (name : String) : Built (.ofHtmlName name) []
  | inNamespace {e : ElementData} {settings : List Attribute} (url : String) :
    Built e settings → Built (e.inNamespace url) settings
  | setAttribute {e : ElementData} {settings : List Attribute} (url name value : String) :
    Built e settings → Built (e.setAttribute url name value) (settings ++ [⟨url, name, value⟩])
  | withAttribute {e : ElementData} {settings : List Attribute} (name value : String) :
    Built e settings → Built (e.withAttribute name value) (settings ++ [⟨"", name, value⟩])

/-- The attributes of the element are a map of what was set, in the order of insertion. -/
structure InsertionOrdered (e : ElementData) (settings : List Attribute) : Prop where
  distinct : (attributeNames e.attributes).Nodup
  /-- The entries are the last settings of the names. -/
  entries : ∀ a, a ∈ e.attributes ↔ LastSets settings a.namespaceUrl a.name a.value
  ordered : (attributeNames e.attributes).Pairwise (SetEarlier settings)
  found : ∀ url name value,
    e.getAttribute? url name = some value ↔ LastSets settings url name value
  missing : ∀ url name,
    e.getAttribute? url name = none ↔ ∀ a ∈ settings, a.isNamed url name = false
  id : ∀ value, e.id? = some value ↔ LastSets settings "" "id" value
  classes : ∀ value, LastSets settings "" "class" value → e.classes = words value
  noClasses : (∀ a ∈ settings, a.isNamed "" "class" = false) → e.classes = []
  /-- What was set in other namespaces does not count for identifier and classes. -/
  unaffected : ∀ f others, Built f others →
    others.filter (·.namespaceUrl == "") = settings.filter (·.namespaceUrl == "") →
    f.id? = e.id? ∧ f.classes = e.classes

theorem Built.leftBy (built : Built e settings) : LeftBy settings e.attributes := by
  induction built with
  | ofName name => exact .nil
  | ofHtmlName name => exact .nil
  | inNamespace url built ih => exact ih
  | setAttribute url name value built ih => exact ih.set ⟨url, name, value⟩
  | withAttribute name value built ih => exact ih.set ⟨"", name, value⟩

theorem Built.getAttribute?_eq (built : Built e settings) (url name : String) :
    e.getAttribute? url name = get? url name settings.reverse :=
  built.leftBy.value url name

/-- Elements with the same settings in a namespace have the same attributes there. -/
theorem Built.getAttribute?_congr {url : String} (built : Built e settings) (builtF : Built f others)
    (same : others.filter (·.namespaceUrl == url) = settings.filter (·.namespaceUrl == url))
    (name : String) : f.getAttribute? url name = e.getAttribute? url name := by
  rw [built.getAttribute?_eq, builtF.getAttribute?_eq, ← get?_filter, List.filter_reverse, same,
    ← List.filter_reverse, get?_filter]

/-- **The attributes of an element are a map in the order of insertion.** However an element is
built, no two of its attributes have one name, they stand in the order in which their names were
first set, and each has the value that was set last. A name that was never set has none. The
identifier and the classes are read off what was set in no namespace, and nothing else. -/
theorem insertionOrdered_of_built (built : Built e settings) : e.InsertionOrdered settings := by
  have found (url name value : String) :
      e.getAttribute? url name = some value ↔ LastSets settings url name value := by
    rw [built.getAttribute?_eq, get?_reverse_eq_some_iff]
  have missing (url name : String) :
      e.getAttribute? url name = none ↔ ∀ a ∈ settings, a.isNamed url name = false := by
    rw [built.getAttribute?_eq, get?_reverse_eq_none_iff]
  have distinct := built.leftBy.nodup
  constructor
  case distinct => exact distinct
  case entries => exact fun a => (get?_eq_some_iff_mem distinct).symm.trans (found ..)
  case ordered => exact built.leftBy.ordered
  case found => exact found
  case missing => exact missing
  case id => exact found "" "id"
  case classes =>
    intro value last
    rw [ElementData.classes, (found ..).2 last]
    rfl
  case noClasses =>
    intro unset
    rw [ElementData.classes, (missing ..).2 unset]
    rfl
  case unaffected =>
    intro f others builtF same
    have alike := built.getAttribute?_congr builtF same
    rw [ElementData.classes, ElementData.classes, alike]
    exact ⟨alike "id", rfl⟩

/-- A class that was set again stands where it was set first, and one in another namespace is
another attribute. -/
theorem insertionOrdered_repeated_class :
    let start := ((ofHtmlName "li").withAttribute "class" "a").setAttribute "u" "class" "x"
    let e := ((start.withAttribute "id" "i").inNamespace "v").setAttribute "" "class" "b c"
    let settings : List Attribute :=
      [⟨"", "class", "a"⟩, ⟨"u", "class", "x"⟩, ⟨"", "id", "i"⟩, ⟨"", "class", "b c"⟩]
    Built e settings ∧ e.InsertionOrdered settings ∧ e.classes = ["b", "c"] ∧
      e.attributes = [⟨"", "class", "b c"⟩, ⟨"u", "class", "x"⟩, ⟨"", "id", "i"⟩] := by
  intro start e settings
  have builtStart : Built start (settings.take 2) :=
    .setAttribute "u" "class" "x" (.withAttribute "class" "a" (.ofHtmlName "li"))
  have built : Built e settings :=
    .setAttribute "" "class" "b c" (.inNamespace "v" (.withAttribute "id" "i" builtStart))
  have last : LastSets settings "" "class" "b c" := ⟨settings.take 3, [], rfl, nofun⟩
  have map := insertionOrdered_of_built built
  exact ⟨built, map, (map.classes _ last).trans (by decide), by decide⟩

end ElementData

end Selectors
