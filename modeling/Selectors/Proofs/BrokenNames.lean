import Mathlib.Data.List.Sort
import Selectors.Document.Load
import Selectors.Proofs.Loading

/-!
Documents that cannot be loaded. A name is broken if it opens a brace in vain (`Breaks`), and
loading fails for no other reason. It comes to the described elements in pre-order, and in an element
to the name and then to the keys of the attributes in the order of their bytes. The first broken
name on this way is reported. What is warned about are the ignored members of the elements up to the
one with that name, or of all elements if there is none (`ofDescription_reports_first_broken_name`).

`Surveys` says this of any part of a description. Parts that are gone through one after the other
are put together by `Surveys.ok_append` and `Surveys.error_append`.
-/

namespace Selectors

/-! ## Broken names -/

/-- A name opens a brace in vain: no brace closes it, or nothing follows the first one that does. -/
inductive Breaks (name : String) : NodeFault → Prop
  | unterminated {rest : List Char} :
    name.toList = '\x7b' :: rest → '\x7d' ∉ rest → Breaks name (.unterminatedNamespace name)
  | missing {url : List Char} :
    name.toList = '\x7b' :: (url ++ ['\x7d']) → '\x7d' ∉ url → Breaks name (.missingLocalName name)

/-- Something is wrong with a name. -/
def Broken (name : String) : Prop := ∃ fault, Breaks name fault

/-- No name is broken. -/
def Whole (names : List String) : Prop := ∀ name ∈ names, ¬ Broken name

/-- The first broken one of several names, and its fault. -/
def FirstFault (names : List String) (name : String) (fault : NodeFault) : Prop :=
  ∃ front back, names = front ++ name :: back ∧ Whole front ∧ Breaks name fault

theorem splitName_of_breaks {name : String} {fault : NodeFault} (breaks : Breaks name fault) :
    splitName name = .error fault := by
  have inside {cs : List Char} (closed : '\x7d' ∉ cs) : ∀ c ∈ cs, (c != '\x7d') = true := by
    intro c member
    rw [bne_iff_ne]
    exact fun same => closed (same ▸ member)
  unfold splitName
  cases breaks with
  | unterminated opened closed =>
    simp only [opened, List.dropWhile_eq_nil_iff.2 (inside closed)]
  | missing opened closed =>
    simp only [opened, List.dropWhile_append_of_pos (inside closed)]
    rfl

theorem breaks_of_splitName {name : String} {fault : NodeFault}
    (failed : splitName name = .error fault) : Breaks name fault := by
  unfold splitName at failed
  split at failed
  · rename_i rest opened
    split at failed
    · rename_i nothing
      cases failed
      refine .unterminated opened fun closing => ?_
      have stays := List.dropWhile_eq_nil_iff.1 nothing _ closing
      exact absurd stays (by decide)
    · rename_i stop alone
      cases failed
      have parts := List.takeWhile_append_dropWhile (p := (· != '\x7d')) (l := rest)
      have first := List.head?_dropWhile_not (· != '\x7d') rest
      rw [alone, List.head?_cons] at first
      have closing : stop = '\x7d' := by simpa using first
      rw [alone, closing] at parts
      refine .missing (opened.trans (congrArg _ parts.symm)) fun member => ?_
      exact absurd (List.mem_takeWhile_imp member) (by decide)
    · cases failed
  · cases failed

theorem not_broken_of_splitName {name url localName : String}
    (found : splitName name = .ok (url, localName)) : ¬ Broken name := by
  intro ⟨fault, breaks⟩
  rw [splitName_of_breaks breaks] at found
  cases found

/-- The message about a broken name says whether the brace is closed, and quotes the name. -/
theorem Breaks.message {name : String} {fault : NodeFault} (breaks : Breaks name fault) :
    fault.message =
      (if '\x7d' ∈ name.toList then "missing local name in '" else "unterminated namespace in '") ++
        name ++ "'" := by
  cases breaks with
  | @unterminated rest opened closed =>
    have notClosed : '\x7d' ∉ name.toList := by
      rw [opened, List.mem_cons, not_or]
      exact ⟨by decide, closed⟩
    rw [if_neg notClosed]
    rfl
  | @missing url opened closed =>
    have isClosed : '\x7d' ∈ name.toList := by
      rw [opened]
      simp
    rw [if_pos isClosed]
    rfl

/-! ## Keys in order -/

section Keys

variable {α : Type}

/-- The keys of some entries, each one once and in the order of their bytes. -/
def sortedKeys (entries : List (String × α)) : List String :=
  (entries.map Prod.fst).eraseDups.mergeSort fun s t => decide (bytes s ≤ bytes t)

theorem mem_sortedKeys_iff {entries : List (String × α)} {key : String} :
    key ∈ sortedKeys entries ↔ key ∈ entries.map Prod.fst := by
  rw [sortedKeys, List.mem_mergeSort, List.mem_eraseDups]

theorem pairwise_sortedKeys (entries : List (String × α)) :
    (sortedKeys entries).Pairwise (· < ·) := by
  have ordered : (sortedKeys entries).Pairwise fun s t => decide (bytes s ≤ bytes t) = true := by
    refine List.pairwise_mergeSort (fun s t u => ?_) (fun s t => ?_) _
    · simp only [decide_eq_true_eq, bytes_le_iff]
      exact le_trans
    · simp only [Bool.or_eq_true, decide_eq_true_eq, bytes_le_iff]
      exact le_total s t
  have distinct : (sortedKeys entries).Nodup :=
    (List.mergeSort_perm _ _).nodup_iff.2 (nodup_eraseDups _)
  refine ordered.imp₂ (fun s t before apart => ?_) distinct
  exact lt_of_le_of_ne (bytes_le_iff.1 (of_decide_eq_true before)) apart

theorem lookup_eq_none_iff_notMem {entries : List (String × α)} {key : String} :
    entries.lookup key = none ↔ key ∉ entries.map Prod.fst := by
  induction entries with
  | nil => simp
  | cons entry rest ih =>
    rw [lookup_cons_ite, List.map_cons, List.mem_cons, not_or, ← ih]
    by_cases same : key = entry.1 <;> simp [same]

theorem mem_keys_byKey_iff {entries : List (String × α)} {key : String} :
    key ∈ (byKey entries).map Prod.fst ↔ key ∈ entries.map Prod.fst := by
  rw [← not_iff_not, ← lookup_eq_none_iff_notMem, ← lookup_eq_none_iff_notMem, lookup_byKey,
    lookup_eq_none_iff_notMem, lookup_eq_none_iff_notMem, List.map_reverse, List.mem_reverse]

/-- Entries sorted by key have the keys in the order of their bytes. -/
theorem keys_byKey (entries : List (String × α)) :
    (byKey entries).map Prod.fst = sortedKeys entries := by
  have ascending : ((byKey entries).map Prod.fst).Pairwise (· < ·) :=
    List.pairwise_map.2 (ascending_byKey entries)
  refine ascending.eq_of_mem_iff (pairwise_sortedKeys entries) fun key => ?_
  rw [mem_keys_byKey_iff, mem_sortedKeys_iff]

end Keys

/-! ## Elements in the order of loading -/

/-- The names of an element in the order in which they are taken apart. -/
def ElementHead.names (head : ElementHead) : List String :=
  head.name :: sortedKeys head.attributes

/-- What is said about a described node itself, if it is an element. -/
def Description.head? : Description → Option ElementHead
  | .element head _ => some head
  | _ => none

/-- What is said about the elements among described nodes and below them, in pre-order. -/
def Description.heads (ds : List Description) : List ElementHead :=
  (Description.listings ds).filterMap Description.head?

/-- Of some elements those up to the one that has the first broken name, with that name and its
fault. -/
inductive FirstBroken : List ElementHead → List ElementHead → String → NodeFault → Prop
  | mk {before behind : List ElementHead} {head : ElementHead} {name : String} {fault : NodeFault} :
    (∀ h ∈ before, Whole h.names) → FirstFault head.names name fault →
    FirstBroken (before ++ head :: behind) (before ++ [head]) name fault

section Names

variable {names : List String} {name : String} {fault : NodeFault}

theorem FirstFault.here (breaks : Breaks name fault) : FirstFault (name :: names) name fault :=
  ⟨[], names, rfl, nofun, breaks⟩

theorem FirstFault.behind {other : String} (whole : ¬ Broken other)
    (first : FirstFault names name fault) : FirstFault (other :: names) name fault := by
  obtain ⟨front, back, rfl, before, breaks⟩ := first
  exact ⟨other :: front, back, rfl, List.forall_mem_cons.2 ⟨whole, before⟩, breaks⟩

theorem FirstFault.mem (first : FirstFault names name fault) : name ∈ names ∧ Broken name := by
  obtain ⟨front, back, rfl, -, breaks⟩ := first
  exact ⟨List.mem_append_right _ (List.mem_cons_self ..), fault, breaks⟩

theorem FirstBroken.exists_broken {heads visited : List ElementHead}
    (first : FirstBroken heads visited name fault) :
    ∃ head ∈ heads, ∃ name ∈ head.names, Broken name := by
  cases first with
  | @mk _ _ head _ _ _ firstFault =>
    exact ⟨head, List.mem_append_right _ (List.mem_cons_self ..), name, firstFault.mem⟩

theorem FirstBroken.breaks {heads visited : List ElementHead}
    (first : FirstBroken heads visited name fault) : Breaks name fault := by
  cases first with
  | mk _ firstFault =>
    obtain ⟨_, _, _, _, breaks⟩ := firstFault
    exact breaks

variable {data data' : ElementData} {entries : List (String × String)}

/-- The keys are looked at in order, up to the first broken one. -/
theorem firstFault_of_setAttributes (failed : setAttributes data entries = .error fault) :
    ∃ name, FirstFault (entries.map Prod.fst) name fault := by
  induction entries generalizing data with
  | nil => cases failed
  | cons entry rest ih =>
    rw [setAttributes] at failed
    split at failed
    · rename_i broken
      cases failed
      exact ⟨_, .here (breaks_of_splitName broken)⟩
    · rename_i found
      obtain ⟨name, first⟩ := ih failed
      exact ⟨name, .behind (not_broken_of_splitName found) first⟩

theorem whole_of_setAttributes (set : setAttributes data entries = .ok data') :
    Whole (entries.map Prod.fst) := by
  induction entries generalizing data with
  | nil => exact List.forall_mem_nil _
  | cons entry rest ih =>
    rw [setAttributes] at set
    split at set
    · cases set
    · rename_i found
      exact List.forall_mem_cons.2 ⟨not_broken_of_splitName found, ih set⟩

variable {head : ElementHead} {html : Bool}

theorem ElementHead.firstFault_of_data (failed : head.data html = .error fault) :
    ∃ name, FirstFault head.names name fault := by
  rw [names, ← keys_byKey]
  unfold ElementHead.data at failed
  split at failed
  · rename_i broken
    cases failed
    exact ⟨_, .here (breaks_of_splitName broken)⟩
  · rename_i found
    obtain ⟨name, first⟩ := firstFault_of_setAttributes failed
    exact ⟨name, .behind (not_broken_of_splitName found) first⟩

theorem ElementHead.whole_of_data (found : head.data html = .ok data) : Whole head.names := by
  rw [names, ← keys_byKey]
  unfold ElementHead.data at found
  split at found
  · cases found
  · rename_i split
    exact List.forall_mem_cons.2 ⟨not_broken_of_splitName split, whole_of_setAttributes found⟩

end Names

/-! ## Going through a description -/

/-- Some elements were gone through in order: either all of them, and no name is broken, or up to
the first one with a broken name. The warnings are those about the elements gone through. -/
structure Surveys {α : Type} (heads : List ElementHead) (survey : Survey α) : Prop where
  ok : ∀ a, survey.result = .ok a → (∀ h ∈ heads, Whole h.names) ∧
    survey.warnings = heads.flatMap ElementHead.warnings
  error : ∀ fault, survey.result = .error fault → ∃ visited name,
    FirstBroken heads visited name fault ∧ survey.warnings = visited.flatMap ElementHead.warnings

namespace Surveys

variable {α β γ : Type} {xs ys : List ElementHead} {first : Survey α} {behind : Survey β}

/-- Where the first part comes to something, the second one is gone through behind it. -/
theorem ok_append {a : α} (one : Surveys xs first) (found : first.result = .ok a)
    (other : Surveys ys behind) (f : β → γ) :
    Surveys (xs ++ ys) ⟨behind.result.map f, first.warnings ++ behind.warnings⟩ := by
  obtain ⟨whole, warnings⟩ := one.ok a found
  constructor
  case ok =>
    intro c mapped
    obtain ⟨b, foundBehind, -⟩ := map_eq_ok_iff.1 mapped
    obtain ⟨wholeBehind, warningsBehind⟩ := other.ok b foundBehind
    rw [warnings, warningsBehind, List.flatMap_append]
    exact ⟨List.forall_mem_append.2 ⟨whole, wholeBehind⟩, rfl⟩
  case error =>
    intro fault mapped
    obtain ⟨visited, name, broken, warningsBehind⟩ := other.error fault (map_eq_error_iff.1 mapped)
    rw [warnings, warningsBehind, ← List.flatMap_append]
    refine ⟨xs ++ visited, name, ?_, rfl⟩
    cases broken with
    | mk before firstFault =>
      rw [← List.append_assoc, ← List.append_assoc]
      exact .mk (List.forall_mem_append.2 ⟨whole, before⟩) firstFault

/-- Where the first part fails, nothing behind it is looked at. -/
theorem error_append {fault : NodeFault} (one : Surveys xs first)
    (failed : first.result = .error fault) :
    Surveys (xs ++ ys) (⟨.error fault, first.warnings⟩ : Survey β) := by
  refine ⟨nofun, fun other same => ?_⟩
  obtain rfl := Except.error.inj same
  obtain ⟨visited, name, broken, warnings⟩ := one.error fault failed
  refine ⟨visited, name, ?_, warnings⟩
  cases broken with
  | mk before firstFault =>
    rw [List.append_assoc]
    exact .mk before firstFault

theorem nil (a : α) : Surveys [] ⟨.ok a, []⟩ :=
  ⟨fun _ _ => ⟨List.forall_mem_nil _, rfl⟩, nofun⟩

theorem single (head : ElementHead) (html : Bool) :
    Surveys [head] ⟨head.data html, head.warnings⟩ := by
  have alone : head.warnings = [head].flatMap ElementHead.warnings :=
    (List.flatMap_singleton ..).symm
  constructor
  case ok =>
    intro data found
    exact ⟨List.forall_mem_singleton.2 (ElementHead.whole_of_data found), alone⟩
  case error =>
    intro fault failed
    obtain ⟨name, first⟩ := ElementHead.firstFault_of_data failed
    have broken : FirstBroken ([] ++ [head]) ([] ++ [head]) name fault := .mk nofun first
    exact ⟨[head], name, broken, alone⟩

end Surveys

namespace Description

variable {html : Bool} {d : Description} {ds : List Description}

theorem heads_cons : heads (d :: ds) = d.head?.toList ++ heads d.children ++ heads ds := by
  rw [heads, listings, listing_eq, List.filterMap_append, List.filterMap_cons]
  cases d <;> rfl

theorem heads_singleton (d : Description) : heads [d] = d.head?.toList ++ heads d.children := by
  rw [heads_cons]
  exact List.append_nil _

/-- An element is gone through before its children. -/
theorem surveys_outline (below : Surveys (heads d.children) (outlines html d.children)) :
    Surveys (d.head?.toList ++ heads d.children) (d.outline html) := by
  cases d with
  | text value => exact .nil _
  | comment value => exact .nil _
  | element head inner =>
    have own := Surveys.single head html
    rw [outline]
    cases result : head.data html with
    | error fault => exact own.error_append result
    | ok data => exact own.ok_append result below (Outline.element data)

/-- Described nodes are gone through in pre-order. -/
theorem surveys_outlines (ds : List Description) : Surveys (heads ds) (outlines html ds) := by
  induction ds using forest_induction with
  | nil => exact .nil _
  | cons d ds below behind =>
    have first := surveys_outline below
    rw [heads_cons, outlines]
    dsimp only
    cases result : (d.outline html).result with
    | error fault => exact first.error_append result
    | ok outline => exact first.ok_append result behind (outline :: ·)

end Description

/-! ## Recorded warnings -/

/-- The warning that a member of an element is ignored. -/
def ignoring (field : String) : Warning :=
  ⟨"DOM", "ignoring unknown element field '" ++ field ++ "'"⟩

/-- Such warnings are recorded under different texts for different members. -/
theorem key_ignoring_inj {field other : String} :
    (ignoring field).key = (ignoring other).key ↔ field = other := by
  refine ⟨fun same => ?_, fun same => congrArg (fun f => (ignoring f).key) same⟩
  rw [← String.toList_inj] at same ⊢
  simpa [Warning.key, ignoring] using same

theorem ElementHead.mem_warnings_iff {head : ElementHead} {w : Warning} :
    w ∈ head.warnings ↔ ∃ field ∈ head.ignored, w = ignoring field := by
  have keys (field : String) : (∃ entry ∈ byKey (head.ignored.map fun key => (key, ())),
      entry.1 = field) ↔ field ∈ head.ignored := by
    rw [← List.mem_map, mem_keys_byKey_iff, List.map_map]
    simp
  rw [warnings, List.mem_map]
  constructor
  · rintro ⟨entry, member, rfl⟩
    exact ⟨entry.1, (keys entry.1).1 ⟨entry, member, rfl⟩, rfl⟩
  · rintro ⟨field, ignored, rfl⟩
    obtain ⟨entry, member, rfl⟩ := (keys field).2 ignored
    exact ⟨entry, member, rfl⟩

theorem Warnings.has_recordAll {recorded : Warnings} {ws : List Warning} {w : Warning} :
    (recorded.recordAll ws).has w = true ↔
      recorded.has w = true ∨ ∃ v ∈ ws, w.key = v.key := by
  unfold Warnings.recordAll
  induction ws generalizing recorded with
  | nil => simp
  | cons v ws ih =>
    rw [List.foldl_cons, ih, has_record, Bool.or_eq_true, beq_iff_eq, List.exists_mem_cons_iff]
    tauto

/-- Of the warnings about ignored members, recording these adds the ones about the members of some
elements. -/
def RecordsIgnored (visited : List ElementHead) (ws : List Warning) : Prop :=
  ∀ (recorded : Warnings) (field : String), (recorded.recordAll ws).has (ignoring field) = true ↔
    recorded.has (ignoring field) = true ∨ ∃ head ∈ visited, field ∈ head.ignored

theorem recordsIgnored_flatMap (visited : List ElementHead) :
    RecordsIgnored visited (visited.flatMap ElementHead.warnings) := by
  intro recorded field
  rw [Warnings.has_recordAll]
  refine or_congr_right ?_
  simp only [List.mem_flatMap, ElementHead.mem_warnings_iff]
  constructor
  · rintro ⟨w, ⟨head, member, other, ignored, rfl⟩, same⟩
    exact ⟨head, member, key_ignoring_inj.1 same ▸ ignored⟩
  · rintro ⟨head, member, ignored⟩
    exact ⟨ignoring field, ⟨head, member, field, ignored, rfl⟩, rfl⟩

/-! ## Loading -/

namespace Document

/-- **A load fails at the first broken name, and has warned up to it.** Loading an element comes to
the elements in pre-order. If no name is broken there is a document, and the ignored members of all
elements are recorded. Else the first broken name is reported, and the ignored members of the
elements up to the one with that name are recorded. -/
theorem ofDescription_reports_first_broken_name (options : LoadOptions) (head : ElementHead)
    (inner : List Description) :
    let heads := Description.heads [.element head inner]
    let load := ofDescription options (.element head inner)
    ((∃ e, load.1 = .error e) ↔ ∃ h ∈ heads, ∃ name ∈ h.names, Broken name) ∧
      (∀ doc, load.1 = .ok doc → RecordsIgnored heads load.2) ∧
      ∀ e, load.1 = .error e → ∃ visited name fault, FirstBroken heads visited name fault ∧
        e = .node fault ∧ e.message = "invalid document node: " ++
          ((if '\x7d' ∈ name.toList then "missing local name in '"
            else "unterminated namespace in '") ++ name ++ "'") ∧
        RecordsIgnored visited load.2 := by
  intro heads load
  have survey : Surveys heads ((Description.element head inner).outline options.html) := by
    have below : Surveys (Description.heads inner) (Description.outlines options.html inner) :=
      Description.surveys_outlines inner
    have outlined := Description.surveys_outline (d := .element head inner) below
    rwa [← Description.heads_singleton] at outlined
  cases result : ((Description.element head inner).outline options.html).result with
  | ok top =>
    have loaded : load.1 = .ok (ofOutline options top) := by
      simp only [load, ofDescription, result]
    obtain ⟨whole, warnings⟩ := survey.ok top result
    refine ⟨?_, fun doc _ => ?_, fun e failed => ?_⟩
    · refine iff_of_false ?_ ?_
      · rintro ⟨e, failed⟩
        rw [loaded] at failed
        cases failed
      · rintro ⟨h, member, name, among, broken⟩
        exact whole h member name among broken
    · have recorded := recordsIgnored_flatMap heads
      rw [← warnings] at recorded
      exact recorded
    · rw [loaded] at failed
      cases failed
  | error fault =>
    have failed : load.1 = .error (.node fault) := by
      simp only [load, ofDescription, result]
    obtain ⟨visited, name, broken, warnings⟩ := survey.error fault result
    refine ⟨iff_of_true ⟨_, failed⟩ broken.exists_broken, fun doc loaded => ?_, fun e same => ?_⟩
    · rw [failed] at loaded
      cases loaded
    · rw [failed] at same
      obtain rfl := Except.error.inj same
      have recorded := recordsIgnored_flatMap visited
      rw [← warnings] at recorded
      exact ⟨visited, name, fault, broken, rfl,
        congrArg ("invalid document node: " ++ ·) broken.breaks.message, recorded⟩

/-- Of two broken names the key in the second element comes before the name of the third one. -/
theorem ofDescription_of_two_broken_names :
    let third : Description := .element ⟨"\x7burn", none, [], ["c"]⟩ []
    let second : Description :=
      .element ⟨"a", none, [("\x7burn\x7d", ""), ("id", "x")], ["b"]⟩ [third]
    let top : ElementHead := ⟨"\x7burn\x7dr", none, [], ["a"]⟩
    let load := ofDescription {} (.element top [.text "t", second])
    load.2 = [ignoring "a", ignoring "b"] ∧
      load.1 = .error (.node (.missingLocalName "\x7burn\x7d")) ∧ ∃ visited name fault,
        FirstBroken (Description.heads [.element top [.text "t", second]]) visited name fault ∧
          LoadError.node (.missingLocalName "\x7burn\x7d") = .node fault ∧
          RecordsIgnored visited load.2 := by
  intro third second top load
  have warned : load.2 = [ignoring "a", ignoring "b"] := by decide +kernel
  have failed : load.1 = .error (.node (.missingLocalName "\x7burn\x7d")) := by
    have told : load.1.map (fun _ => ()) = .error (.node (.missingLocalName "\x7burn\x7d")) := by
      decide +kernel
    exact map_eq_error_iff.1 told
  obtain ⟨-, -, reported⟩ :=
    ofDescription_reports_first_broken_name {} top [.text "t", second]
  obtain ⟨visited, name, fault, broken, same, -, records⟩ := reported _ failed
  exact ⟨warned, failed, visited, name, fault, broken, same, records⟩

end Document

end Selectors
