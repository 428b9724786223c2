/-
  SandboxFetch.Proofs.ChangeLog.Torn — what is read from the beginning of a document.

  Past the tag of the root, a reader only adds to its report: at the end of the component changes, or
  at the end of the list of some component (`Reader.step_begins`). So whatever is read from the
  beginning of a document begins what is read from all of it (`feed_begins`). And since the reader
  comes past the component changes before it lists anything, and past the accepted change sets before
  it lists a discarded one, a report that lists some has all that stands before (`ofText_torn`).
-/

import SandboxFetch.Proofs.ChangeLog.RoundTrip
import SandboxFetch.Proofs.ChangeLog.Taking

namespace SandboxFetch

/-! ## Maps that begin others -/

namespace Dict

variable {α : Type} {d d' d'' : Dict (List α)}

/-- Each list of a map begins the list that another map has at its key. -/
def Begins (d d' : Dict (List α)) : Prop := ∀ k l, d.get? k = some l → ∃ l', d'.get? k = some l' ∧ l <+: l'

namespace Begins

theorem refl (d : Dict (List α)) : d.Begins d := fun _ l there => ⟨l, there, List.prefix_rfl⟩

theorem trans (first : d.Begins d') (last : d'.Begins d'') : d.Begins d'' := by
  intro k l there
  obtain ⟨l', there', before⟩ := first k l there
  obtain ⟨l'', there'', before'⟩ := last k l' there'
  exact ⟨l'', there'', before.trans before'⟩

theorem antisymm (first : d.Begins d') (last : d'.Begins d) : d = d' := by
  refine eq_of_get? fun k => ?_
  cases there : d.get? k with
  | some l =>
    obtain ⟨l', there', before⟩ := first k l there
    obtain ⟨m, back, before'⟩ := last k l' there'
    obtain rfl : m = l := Option.some.inj (back.symm.trans there)
    rw [there', before.eq_of_length_le before'.length_le]
  | none =>
    cases there' : d'.get? k with
    | none => rfl
    | some l' =>
      obtain ⟨l, back, -⟩ := last k l' there'
      rw [there] at back
      cases back

theorem eq_empty (h : d.Begins ∅) : d = ∅ := by
  refine h.antisymm fun k l there => ?_
  cases there

/-- A map begins what it becomes when one list gets longer, or comes in. -/
theorem update (d : Dict (List α)) (k : String) {f : Option (List α) → List α}
    (longer : ∀ o : Option (List α), ∀ l ∈ o, l <+: f o) : d.Begins (d.update k f) := by
  intro j l there
  rw [get?_update]
  by_cases same : j = k
  · subst same
    rw [if_pos rfl]
    exact ⟨_, rfl, longer _ l there⟩
  · rw [if_neg same]
    exact ⟨l, there, List.prefix_rfl⟩

theorem push (d : Dict (List α)) (k : String) (x : α) : d.Begins (d.push k x) := by
  refine update d k fun o l there => ?_
  rw [Option.mem_def.1 there]
  exact List.prefix_append _ _

theorem reserve (d : Dict (List α)) (k : String) : d.Begins (d.reserve k) := by
  refine update d k fun o l there => ?_
  rw [Option.mem_def.1 there]
  exact List.prefix_rfl

end Begins

end Dict

/-! ## Reports that begin others -/

namespace ChangeReport

/-- A report has the head of another one, and of its lists the beginnings. -/
structure Begins (torn whole : ChangeReport) : Prop where
  workspace : torn.workspace = whole.workspace
  baselineId : torn.baselineId = whole.baselineId
  baselineName : torn.baselineName = whole.baselineName
  personal : torn.personal = whole.personal
  componentChanges : torn.componentChanges <+: whole.componentChanges
  accepted : torn.accepted.Begins whole.accepted
  discarded : torn.discarded.Begins whole.discarded

variable {a b c : ChangeReport}

theorem Begins.refl (r : ChangeReport) : r.Begins r :=
  ⟨rfl, rfl, rfl, rfl, List.prefix_rfl, .refl _, .refl _⟩

theorem Begins.trans (first : a.Begins b) (last : b.Begins c) : a.Begins c where
  workspace := first.workspace.trans last.workspace
  baselineId := first.baselineId.trans last.baselineId
  baselineName := first.baselineName.trans last.baselineName
  personal := first.personal.trans last.personal
  componentChanges := first.componentChanges.trans last.componentChanges
  accepted := first.accepted.trans last.accepted
  discarded := first.discarded.trans last.discarded

end ChangeReport

namespace ChangeLog

open Xml (Event)

/-! ## Steps -/

def Reader.Begins (r r' : Reader) : Prop :=
  ∀ report, r.report = some report → ∃ report', r'.report = some report' ∧ report.Begins report'

namespace Reader

variable {r r' r'' : Reader}

theorem Begins.of_eq (same : r'.report = r.report) : r.Begins r' := fun report there =>
  ⟨report, same.trans there, .refl _⟩

theorem Begins.trans (first : r.Begins r') (last : r'.Begins r'') : r.Begins r'' := by
  intro report there
  obtain ⟨report', there', begins⟩ := first report there
  obtain ⟨report'', there'', begins'⟩ := last report' there'
  exact ⟨report'', there'', begins.trans begins'⟩

theorem Begins.report {a b : ChangeReport} (h : r.Begins r') (first : r.report = some a) (last : r'.report = some b) :
    a.Begins b := by
  obtain ⟨b', there, begins⟩ := h a first
  obtain rfl : b' = b := Option.some.inj (there.symm.trans last)
  exact begins

theorem changed_begins {f : Dict (List ReportedChangeSet) → Dict (List ReportedChangeSet)} (r : Reader)
    (longer : ∀ d : Dict (List ReportedChangeSet), d.Begins (f d)) : r.Begins (changed r f) := by
  obtain ⟨report?, part, component, changeSet⟩ := r
  rintro report rfl
  cases part with
  | accepted => exact ⟨_, rfl, { ChangeReport.Begins.refl report with accepted := longer _ }⟩
  | discarded => exact ⟨_, rfl, { ChangeReport.Begins.refl report with discarded := longer _ }⟩
  | outside => exact ⟨_, rfl, .refl _⟩
  | componentChanges => exact ⟨_, rfl, .refl _⟩

/-- A tag other than that of the root only adds to the report. -/
theorem begins_of_enters {isEmpty : Bool} {name : String} (inner : name ≠ "changelog")
    (h : Enters isEmpty r name r') : r.Begins r' := by
  cases h with
  | root => exact absurd rfl inner
  | part => cases isEmpty <;> exact .of_eq rfl
  | @componentChange known _ met =>
    intro report there
    obtain rfl : known = report := Option.some.inj (met.symm.trans there)
    exact ⟨_, rfl, { ChangeReport.Begins.refl known with componentChanges := List.prefix_append _ _ }⟩
  | component => exact (changed_begins r fun d => .reserve d _).trans (.of_eq rfl)
  | emptySet => exact changed_begins r fun d => .push d _ _
  | passedComponent | passedSet | openedSet | itemChange | workItem | passed => exact .of_eq rfl

theorem begins_of_leaves {name : String} (h : Leaves r name r') : r.Begins r' := by
  cases h with
  | changeSet =>
    have closed : r.Begins { r with changeSet := none } := .of_eq rfl
    exact closed.trans (changed_begins _ fun d => .push d _ _)
  | component | part | passed => exact .of_eq rfl

def Inner : Event → Prop
  | .opening tag | .empty tag => tag.localName ≠ "changelog"
  | .closing _ => True

theorem step_begins {e : Event} (inner : Inner e) (h : r.step e = .ok r') : r.Begins r' := by
  have taken := takes_of_step h
  cases e with
  | opening tag => exact begins_of_enters inner taken
  | empty tag => exact begins_of_enters inner taken
  | closing name => exact begins_of_leaves taken

end Reader

/-- A reader only adds to its report, as long as no root is opened. -/
theorem feed_begins {r r' : Reader} {ls : List Line} (inner : ∀ l ∈ ls, Reader.Inner l.event) (h : feed r ls = .ok r') :
    r.Begins r' := by
  induction ls generalizing r with
  | nil =>
    cases h
    exact .of_eq rfl
  | cons l rest ih =>
    rw [feed_cons] at h
    obtain ⟨mid, first, later⟩ := ok_of_bind h
    have step := Reader.step_begins (inner l List.mem_cons_self) first
    exact step.trans (ih (fun m member => inner m (List.mem_cons_of_mem _ member)) later)

/-! ## Lines -/

def innerNames : List String :=
  ["componentChanges", "accepted", "discarded", "component", "changeSet", "change", "workItem"]

theorem mem_element {depth : Nat} {name : String} {attributes : List (String × String)} {inner : List Line} {l : Line}
    (member : l ∈ element depth name attributes inner) : l.name = name ∨ l ∈ inner := by
  unfold element at member
  split at member
  · rw [List.mem_singleton.1 member]
    exact .inl rfl
  · rcases List.mem_cons.1 member with rfl | member
    · exact .inl rfl
    · rcases List.mem_append.1 member with member | member
      · exact .inr member
      · rw [List.mem_singleton.1 member]
        exact .inl rfl

theorem name_of_mem_changeSetLines {c : ReportedChangeSet} {l : Line} (member : l ∈ changeSetLines c) :
    l.name ∈ innerNames := by
  rcases mem_element member with named | member
  · simp [named, innerNames]
  · simp only [List.mem_append, List.mem_map] at member
    rcases member with (⟨_, -, rfl⟩ | ⟨_, -, rfl⟩) | ⟨_, -, rfl⟩ <;> simp [innerNames, changeLine, workItemLine]

theorem name_of_mem_sectionLines {name : String} {sets : Dict (List ReportedChangeSet)} {l : Line}
    (known : name ∈ innerNames) (member : l ∈ sectionLines name sets) : l.name ∈ innerNames := by
  rcases mem_element member with named | member
  · rw [named]
    exact known
  · obtain ⟨e, -, member⟩ := List.mem_flatMap.1 member
    rw [componentLines_eq, List.cons_append, List.mem_cons, List.mem_append, List.mem_singleton] at member
    rcases member with rfl | member | rfl
    · simp [innerNames]
    · obtain ⟨c, -, member⟩ := List.mem_flatMap.1 member
      exact name_of_mem_changeSetLines member
    · simp [innerNames]

/-- No line inside the root opens another one. -/
theorem inner_of_name {l : Line} (known : l.name ∈ innerNames) : Reader.Inner l.event := by
  have other : ∀ name ∈ innerNames, Xml.localName name.toList ≠ "changelog" := by decide
  unfold Line.event
  split
  · exact other l.name known
  · exact other l.name known
  · trivial

theorem inner_of_mem_bodyLines {report : ChangeReport} {l : Line} (member : l ∈ bodyLines report) :
    Reader.Inner l.event := by
  refine inner_of_name ?_
  unfold bodyLines at member
  rcases List.mem_append.1 member with member | member
  · rcases List.mem_append.1 member with member | member
    · rcases mem_element member with named | member
      · simp [named, innerNames]
      · obtain ⟨x, -, rfl⟩ := List.mem_map.1 member
        simp [innerNames, componentChangeLine]
    · exact name_of_mem_sectionLines (by decide) member
  · exact name_of_mem_sectionLines (by decide) member

/-! ## Documents that are cut -/

/-- The events of the beginning of a document are those of its first lines. -/
theorem events_of_prefix {report : ChangeReport} {cs : List Char} (cut : cs <+: write report) :
    ∃ n, (Xml.Document.scan (Text.dropMarks cs)).events = ((lines report).take n).map Line.event := by
  have mark : Text.dropMarks cs = cs := by
    obtain ⟨rest, whole⟩ := cut
    cases cs with
    | nil => rfl
    | cons c cs =>
      obtain rfl : c = '<' := (List.cons.inj whole).1
      rfl
  have scanned : (Xml.Document.scan (write report)).events = (lines report).map Line.event :=
    congrArg Xml.Document.events (scan_write report)
  obtain ⟨rest, whole⟩ := cut
  rw [mark]
  unfold Xml.Document.scan at scanned ⊢
  rw [← whole, Xml.Scanner.run_append] at scanned
  dsimp only at scanned ⊢
  exact ⟨_, by rw [List.map_take, ← scanned, List.take_left]⟩

/-- What is read is the report of a reader that was fed some lines. -/
theorem read_eq_ok {cs : List Char} {ls : List Line} {report : ChangeReport}
    (events : (Xml.Document.scan (Text.dropMarks cs)).events = ls.map Line.event) (h : read cs = .ok report) :
    ∃ r : Reader, feed {} ls = .ok r ∧ r.report = some report := by
  unfold read at h
  dsimp only at h
  rw [events] at h
  obtain ⟨r, fed, h⟩ := ok_of_bind h
  refine ⟨r, fed, ?_⟩
  split at h
  · cases h
  · exact (report_of_result h).2

/-- A reader that stops among some lines has not got as far as the one behind the first of them, or
    has got further. -/
theorem feed_take_cases {r mid reader : Reader} {xs ys : List Line} {n : Nat}
    (inner : ∀ l ∈ xs ++ ys, Reader.Inner l.event) (first : feed r xs = .ok mid)
    (fed : feed r ((xs ++ ys).take n) = .ok reader) : reader.Begins mid ∨ mid.Begins reader := by
  rcases Nat.le_total n xs.length with short | long
  · left
    rw [List.take_append_of_le_length short] at fed
    rw [← List.take_append_drop n xs, feed_append, fed, ok_bind] at first
    exact feed_begins (fun l member => inner l (List.mem_append_left _ (List.mem_of_mem_drop member))) first
  · right
    rw [List.take_append, List.take_of_length_le long, feed_append_of_ok first] at fed
    exact feed_begins (fun l member => inner l (List.mem_append_right _ (List.mem_of_mem_take member))) fed

def headOf (report : ChangeReport) : ChangeReport :=
  { report with componentChanges := [], accepted := ∅, discarded := ∅ }

def componentChangesLines (report : ChangeReport) : List Line :=
  element 1 "componentChanges" [] (report.componentChanges.map componentChangeLine)

theorem feed_lines (report : ChangeReport) (n : Nat) : feed {} ((lines report).take (n + 1)) =
    feed (among .outside (headOf report)) ((bodyLines report ++ [(⟨0, .closing, "changelog", []⟩ : Line)]).take n) := by
  rw [lines_eq, List.cons_append, List.take_succ_cons, feed_cons, step_root]
  rfl

/-- Behind the component changes no change set is listed. -/
theorem feed_componentChangesLines (report : ChangeReport) :
    feed (among .outside (headOf report)) (componentChangesLines report) =
      .ok (among .outside { report with accepted := ∅, discarded := ∅ }) :=
  feed_componentChanges (headOf report) report.componentChanges

/-- Behind the accepted change sets no discarded one is listed. -/
theorem feed_acceptedLines {report : ChangeReport} (inRange : report.InRange) (normal : report.normal = report) :
    feed (among .outside (headOf report)) (componentChangesLines report ++ sectionLines "accepted" report.accepted) =
      .ok (among .outside { report with discarded := ∅ }) := by
  have taken : takeEntries report.accepted.entries ∅ = report.accepted := by
    rw [takeEntries_eq]
    exact congrArg ChangeReport.accepted normal
  rw [feed_append_of_ok (feed_componentChangesLines report),
    feed_section (.inl ⟨rfl, rfl⟩) _ ((inRange_iff report).1 inRange).1]
  show Except.ok (among .outside { report with accepted := takeEntries report.accepted.entries ∅, discarded := ∅ }) = _
  rw [taken]

/-- What is read from the beginning of the document of a report, when the report comes back from all of
    it, has the head of the report and of its lists the beginnings. It lists change sets only when it
    has all component changes, and discarded ones only when it has all accepted ones. -/
theorem ofText_torn {report torn : ChangeReport} {p : String} (back : ofText (text report) = .ok report)
    (cut : p.toList <+: (text report).toList) (read : ofText p = .ok torn) :
    torn.Begins report ∧
      (torn.accepted ≠ ∅ ∨ torn.discarded ≠ ∅ → torn.componentChanges = report.componentChanges) ∧
      (torn.discarded ≠ ∅ → torn.accepted = report.accepted) := by
  have inRange : report.InRange := by
    by_contra outOfRange
    obtain ⟨fault, refused⟩ := ofText_text_refused outOfRange
    rw [refused] at back
    cases back
  have normal : report.normal = report := Except.ok.inj ((ofText_text_of_inRange inRange).symm.trans back)
  rw [text, String.toList_ofList] at cut
  obtain ⟨n, events⟩ := events_of_prefix cut
  obtain ⟨reader, fed, known⟩ := read_eq_ok events read
  cases n with
  | zero =>
    -- the tag of the root is cut, and there is no report
    cases fed
    cases known
  | succ n =>
    rw [feed_lines] at fed
    have inner : ∀ l ∈ bodyLines report ++ [(⟨0, .closing, "changelog", []⟩ : Line)], Reader.Inner l.event := by
      intro l member
      rcases List.mem_append.1 member with member | member
      · exact inner_of_mem_bodyLines member
      · rw [List.mem_singleton.1 member]
        trivial
    -- the lines that were cut off take the torn report to the whole one, and only add to it
    have begins : torn.Begins report := by
      rw [ofText_text_eq_feed, ← List.take_length (l := lines report), lines_eq, List.cons_append, List.length_cons,
        ← List.cons_append, ← lines_eq, feed_lines, List.take_length] at back
      obtain ⟨last, all, result⟩ := ok_of_bind back
      rw [← List.take_append_drop n (bodyLines report ++ _), feed_append, fed, ok_bind] at all
      exact (feed_begins (fun l member => inner l (List.mem_of_mem_drop member)) all).report known
        (report_of_result result).2
    refine ⟨begins, fun lists => ?_, fun lists => ?_⟩
    · rw [bodyLines, List.append_assoc, List.append_assoc] at fed inner
      -- before the end of the component changes no change set is listed, and after it none is missing
      rcases feed_take_cases inner (feed_componentChangesLines report) fed with early | late
      · have before := early.report known rfl
        rcases lists with lists | lists
        · exact absurd before.accepted.eq_empty lists
        · exact absurd before.discarded.eq_empty lists
      · have after := (late.report rfl known).componentChanges
        exact begins.componentChanges.eq_of_length_le after.length_le
    · rw [bodyLines, List.append_assoc] at fed inner
      rcases feed_take_cases inner (feed_acceptedLines inRange normal) fed with early | late
      · exact absurd (early.report known rfl).discarded.eq_empty lists
      · exact begins.accepted.antisymm (late.report rfl known).accepted

def emptySet (id : ItemId) (component : Component) : ReportedChangeSet where
  id := id
  component := component
  comment := some "a < b"
  timestamp := noonOfMay
  changes := []
  workItem := none
  otherWorkItems := []
  tooMany := false
  count := 0

def reportOf (ids : List ItemId) : ChangeReport where
  workspace := "_ws"
  baselineId := some "_b1"
  baselineName := some "ws build #1"
  personal := false
  componentChanges := []
  accepted := ids.foldl (fun sets id => sets.push "_core" (emptySet id ⟨"_core", "core"⟩)) ∅
  discarded := ∅

/-- The document of two change sets, cut behind the first one. -/
theorem ofText_torn_behindFirst : ∃ p : String,
    ofText (text (reportOf ["_1", "_2"])) = .ok (reportOf ["_1", "_2"]) ∧
      p.toList <+: (text (reportOf ["_1", "_2"])).toList ∧ ofText p = .ok (reportOf ["_1"]) ∧
      (reportOf ["_1"]).Begins (reportOf ["_1", "_2"]) := by
  have back : ofText (text (reportOf ["_1", "_2"])) = .ok (reportOf ["_1", "_2"]) := by
    rw [ofText, text, String.toList_ofList]
    decide +kernel
  have torn : ofText (String.ofList ((write (reportOf ["_1", "_2"])).take 417)) = .ok (reportOf ["_1"]) := by
    rw [ofText, String.toList_ofList]
    decide +kernel
  have cut : (String.ofList ((write (reportOf ["_1", "_2"])).take 417)).toList <+:
      (text (reportOf ["_1", "_2"])).toList := by
    rw [text, String.toList_ofList, String.toList_ofList]
    exact List.take_prefix _ _
  exact ⟨_, back, cut, torn, (ofText_torn back cut torn).1⟩

end ChangeLog

end SandboxFetch
