import Std.Data.HashMap
import Selectors.Compiled
import Selectors.Warnings

/-!
An index of compiled selectors. Most selectors of a style sheet cannot match a given element; the
index files each one under one of its hints, the most selective it has, and puts only those to an
element that are filed under something the element has.

`Index.lookup` lists the selectors that match an element in the order of the cascade: by
specificity, and among equals in the order they were added. A selector that never matches is not
filed but still takes its turn in that order.
-/

namespace Selectors

/-- A filed selector. -/
structure Entry (α : Type) : Type where
  selector : Compiled
  /-- How many selectors were added before it. -/
  order : Nat
  payload : α

/-- Slots of entries, filed under texts. -/
structure Buckets : Type where
  slots : Std.HashMap String (List Nat) := {}

namespace Buckets

/-- The slots filed under a text, in the order they were filed. -/
def get (b : Buckets) (key : String) : List Nat := b.slots.getD key []

/-- Files a slot. -/
def add (b : Buckets) (key : String) (slot : Nat) : Buckets :=
  ⟨b.slots.insert key (b.get key ++ [slot])⟩

theorem get_add (b : Buckets) (key other : String) (slot : Nat) :
    (b.add key slot).get other = if other = key then b.get key ++ [slot] else b.get other := by
  by_cases h : other = key
  · simp [get, add, h]
  · simp [get, add, Std.HashMap.getD_insert, h, Ne.symm h]

end Buckets

/-- Selectors filed by their hints, each with a payload. -/
structure Index (α : Type) : Type where
  entries : Array (Entry α) := #[]
  byId : Buckets := {}
  byClass : Buckets := {}
  byTypeName : Buckets := {}
  byNamespace : Buckets := {}
  /-- The slots of selectors without hints. -/
  unhinted : List Nat := []
  nextOrder : Nat := 0

/-- A selector that matches an element. -/
structure Match (α : Type) : Type where
  specificity : Specificity
  order : Nat
  pseudoElement? : Option String
  payload : α

/-- What is told about an entry that matches. -/
def Entry.toMatch {α : Type} (entry : Entry α) : Match α where
  specificity := entry.selector.specificity
  order := entry.order
  pseudoElement? := entry.selector.pseudoElement?
  payload := entry.payload

/-- The order of the cascade, the weakest first. -/
def Match.le {α : Type} (m n : Match α) : Bool :=
  if m.specificity = n.specificity then m.order ≤ n.order else m.specificity.le n.specificity

namespace Index

variable {α : Type}

instance : Inhabited (Index α) := ⟨{}⟩

/-- The number of filed selectors. -/
def size (index : Index α) : Nat := index.entries.size

/-- The warning about a selector that never matches. -/
def droppedWarning (order : Nat) (specificity : Specificity) : Warning where
  component := "Selectors"
  message :=
    "dropping selector #" ++ toString order ++ " with specificity " ++ specificity.text ++
      ": it can never match"

/-- Files a slot under the most selective hint there is. -/
def file (index : Index α) (hints : Hints) (slot : Nat) : Index α :=
  match hints with
  | { id? := some value, .. } => { index with byId := index.byId.add value slot }
  | { className? := some name, .. } => { index with byClass := index.byClass.add name slot }
  | { typeName? := some name, .. } => { index with byTypeName := index.byTypeName.add name slot }
  | { namespaceUrl? := some url, .. } =>
    { index with byNamespace := index.byNamespace.add url slot }
  | _ => { index with unhinted := index.unhinted ++ [slot] }

/-- Adds a selector with a payload. One that never matches is dropped, and warned about. -/
def add (index : Index α) (selector : Compiled) (payload : α) : Index α × Option Warning :=
  let order := index.nextOrder
  let turned := { index with nextOrder := order + 1 }
  if selector.neverMatches then (turned, some (droppedWarning order selector.specificity))
  else
    let filed := turned.file selector.hints index.entries.size
    ({ filed with entries := filed.entries.push ⟨selector, order, payload⟩ }, none)

/-- The slots filed under something that an element has, each once. -/
def candidates (index : Index α) (data : ElementData) : List Nat :=
  (index.unhinted ++ data.id?.elim [] index.byId.get ++
    data.classes.flatMap index.byClass.get ++ index.byTypeName.get data.name ++
    index.byNamespace.get data.namespaceUrl).eraseDups

/-- The filed selectors that match an element, the weakest first. -/
def lookup (index : Index α) (doc : Document) (e : Element) : List (Match α) :=
  (((index.candidates e.data).filterMap (index.entries[·]?)).filter
    (fun entry => entry.selector.accepts doc e)).map Entry.toMatch |>.mergeSort Match.le

end Index

end Selectors
