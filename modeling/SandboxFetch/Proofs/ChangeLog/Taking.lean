/-
  SandboxFetch.Proofs.ChangeLog.Taking — all that a tag can do to the reader of a change log.

  A reader that takes an opening or empty tag goes over into one of a few readers, by the name of the
  tag and the part of the document that it is in (`Enters`), and so does one that takes a closing tag
  (`Leaves`). Nothing else happens to a reader in any document, whatever stands in it and in whatever
  order. What holds of every report that is read is shown by going through these cases.
-/

import SandboxFetch.Proofs.ChangeLog.Sections
import SandboxFetch.Proofs.Results

namespace SandboxFetch.ChangeLog

open Xml (Event)

def partNamed? : String → Option Section
  | "componentChanges" => some .componentChanges
  | "accepted" => some .accepted
  | "discarded" => some .discarded
  | _ => none

/-- A part of the document in which change sets are listed. -/
def Listing (part : Section) : Prop := part = .accepted ∨ part = .discarded

instance : DecidablePred Listing := fun part => inferInstanceAs (Decidable (part = .accepted ∨ part = .discarded))

/-! ## Opening and empty tags -/

inductive Enters (isEmpty : Bool) (r : Reader) : String → Reader → Prop where
  | root {report : ChangeReport}
      (bare : report.componentChanges = [] ∧ report.accepted = ∅ ∧ report.discarded = ∅) :
      Enters isEmpty r "changelog" { r with report := some report }
  | part {name : String} {part : Section} (named : partNamed? name = some part) :
      Enters isEmpty r name (if isEmpty then r else { r with part })
  | passedComponent (outside : r.part = .outside) : Enters isEmpty r "component" r
  | componentChange {report : ChangeReport} {change : ComponentChange} (met : r.report = some report)
      (inside : r.part = .componentChanges) :
      Enters isEmpty r "component"
        { r with report := some { report with componentChanges := report.componentChanges ++ [change] } }
  | component {component : Component} (lists : Lists r) :
      Enters isEmpty r "component"
        (moveTo (if isEmpty then r.component else some component) (changed r (·.reserve component.id)))
  | passedSet (elsewhere : ¬ Listing r.part) : Enters isEmpty r "changeSet" r
  | emptySet {c : ReportedChangeSet} (empty : isEmpty = true) (lists : Lists r) (bare : c.changes = []) :
      Enters isEmpty r "changeSet" (changed r (·.push c.component.id (Reader.settleCount c)))
  | openedSet {c : ReportedChangeSet} (opening : isEmpty = false) (listing : Listing r.part) (bare : c.changes = []) :
      Enters isEmpty r "changeSet" { r with changeSet := some c }
  | itemChange {c : ReportedChangeSet} {change : ItemChange} (opened : r.changeSet = some c) :
      Enters isEmpty r "change" { r with changeSet := some { c with changes := c.changes ++ [change] } }
  | workItem {c c' : ReportedChangeSet} (opened : r.changeSet = some c) (same : c'.changes = c.changes) :
      Enters isEmpty r "workItem" { r with changeSet := some c' }
  | passed {name : String}
      (unknown : name ≠ "changelog" ∧ partNamed? name = none ∧ name ≠ "component" ∧ name ≠ "changeSet") :
      Enters isEmpty r name r

variable {r r' : Reader} {isEmpty : Bool} {attributes : Dict String}

theorem changeSets_ok {f : Dict (List ReportedChangeSet) → Dict (List ReportedChangeSet)}
    (h : r.changeSets f = .ok r') : Lists r ∧ r' = changed r f := by
  obtain ⟨report?, part, component, changeSet⟩ := r
  cases report? with
  | none => cases h
  | some report =>
    cases part with
    | accepted =>
      cases h
      exact ⟨⟨rfl, .inl rfl⟩, rfl⟩
    | discarded =>
      cases h
      exact ⟨⟨rfl, .inr rfl⟩, rfl⟩
    | outside => cases h
    | componentChanges => cases h

theorem openReport_bare {report : ChangeReport} (h : openReport attributes = .ok report) :
    report.componentChanges = [] ∧ report.accepted = ∅ ∧ report.discarded = ∅ := by
  have head : (do
      let workspace ← required attributes "changelog" "workspaceItemId"
      let personal ← readFlag attributes "changelog" "personalBuild"
      return { ChangeReport.empty workspace personal with
        baselineId := attributes.get? "baselineSetItemId"
        baselineName := attributes.get? "baselineSetName" } : Except Error ChangeReport) = .ok report := by
    unfold openReport at h
    split at h
    · split at h
      · cases h
      · exact h
    · exact h
  obtain ⟨workspace, -, head⟩ := ok_of_bind head
  obtain ⟨personal, -, head⟩ := ok_of_bind head
  cases head
  exact ⟨rfl, rfl, rfl⟩

theorem openChangeSet_bare {component : Option Component} {c : ReportedChangeSet}
    (h : openChangeSet attributes component = .ok c) : c.changes = [] := by
  unfold openChangeSet at h
  split at h
  · cases h
  · obtain ⟨date, -, h⟩ := ok_of_bind h
    split at h
    · cases h
    · obtain ⟨count, -, h⟩ := ok_of_bind h
      obtain ⟨id, -, h⟩ := ok_of_bind h
      obtain ⟨tooMany, -, h⟩ := ok_of_bind h
      cases h
      rfl

theorem enters_component (h : r.component? isEmpty attributes = .ok r') : Enters isEmpty r "component" r' := by
  -- both sections for change sets take the tag in the same way
  have listing (h : (do
      let id ← required attributes "component" "itemId"
      let r ← r.changeSets (·.reserve id)
      return if isEmpty then r else { r with component := some ⟨id, (attributes.get? "name").getD ""⟩ }) = .ok r') :
      Enters isEmpty r "component" r' := by
    obtain ⟨id, -, h⟩ := ok_of_bind h
    obtain ⟨mid, reserved, h⟩ := ok_of_bind h
    obtain ⟨lists, rfl⟩ := changeSets_ok reserved
    have entered : Enters isEmpty r "component" (moveTo
        (if isEmpty then r.component else some ⟨id, (attributes.get? "name").getD ""⟩) (changed r (·.reserve id))) :=
      .component lists
    cases isEmpty with
    | true =>
      cases h
      rw [if_pos rfl, moveTo_changed, moveTo_self] at entered
      exact entered
    | false =>
      cases h
      exact entered
  unfold Reader.component? at h
  split at h
  · next outside =>
    cases h
    exact .passedComponent outside
  · next inside =>
    obtain ⟨change, -, h⟩ := ok_of_bind h
    split at h
    · cases h
    · next met =>
      cases h
      exact .componentChange met inside
  · exact listing h
  · exact listing h

theorem enters_changeSet (h : r.openSet isEmpty attributes = .ok r') : Enters isEmpty r "changeSet" r' := by
  unfold Reader.openSet at h
  split at h
  · next inside =>
    obtain ⟨c, opened, h⟩ := ok_of_bind h
    have bare := openChangeSet_bare opened
    cases isEmpty with
    | true =>
      have pushed : r.pushChangeSet c = .ok r' := h
      obtain ⟨lists, rfl⟩ := changeSets_ok pushed
      exact .emptySet rfl lists bare
    | false =>
      cases h
      exact .openedSet rfl inside bare
  · next elsewhere =>
    cases h
    exact .passedSet elsewhere

theorem enters_change (h : r.addItemChange attributes = .ok r') : Enters isEmpty r "change" r' := by
  unfold Reader.addItemChange at h
  obtain ⟨change, -, h⟩ := ok_of_bind h
  split at h
  · cases h
  · next opened =>
    cases h
    exact .itemChange opened

theorem enters_workItem (h : r.addWorkItem attributes = .ok r') : Enters isEmpty r "workItem" r' := by
  unfold Reader.addWorkItem at h
  obtain ⟨⟨item, primary⟩, -, h⟩ := ok_of_bind h
  dsimp only at h
  split at h
  · cases h
  · next c opened =>
    cases h
    refine .workItem opened ?_
    split <;> rfl

theorem enters_of_enter {name : String} (h : r.enter isEmpty name attributes = .ok r') : Enters isEmpty r name r' := by
  unfold Reader.enter at h
  split at h
  · obtain ⟨report, opened, h⟩ := ok_of_bind h
    cases h
    exact .root (openReport_bare opened)
  · cases h
    exact .part rfl
  · cases h
    exact .part rfl
  · cases h
    exact .part rfl
  · exact enters_component h
  · exact enters_changeSet h
  · exact enters_change h
  · exact enters_workItem h
  · next notRoot notChanges notAccepted notDiscarded notComponent notSet _ _ =>
    cases h
    refine .passed ⟨notRoot, ?_, notComponent, notSet⟩
    unfold partNamed?
    split <;> first | contradiction | rfl

/-! ## Closing tags -/

inductive Leaves (r : Reader) : String → Reader → Prop where
  | changeSet {c : ReportedChangeSet} (opened : r.changeSet = some c) (lists : Lists r) :
      Leaves r "changeSet"
        (changed { r with changeSet := none } (·.push c.component.id (Reader.settleCount c)))
  | component : Leaves r "component" { r with component := none }
  | part {name : String} {part : Section} (named : partNamed? name = some part) :
      Leaves r name { r with part := .outside }
  | passed {name : String} (unknown : partNamed? name = none ∧ name ≠ "component" ∧ name ≠ "changeSet") :
      Leaves r name r

theorem leaves_of_finish {name : String} (h : r.finish name = .ok r') : Leaves r name r' := by
  unfold Reader.finish at h
  split at h
  · split at h
    · cases h
    · next c opened =>
      obtain ⟨lists, rfl⟩ := changeSets_ok h
      exact .changeSet opened lists
  · cases h
    exact .component
  · cases h
    exact .part rfl
  · cases h
    exact .part rfl
  · cases h
    exact .part rfl
  · next notSet notComponent notChanges notAccepted notDiscarded =>
    cases h
    refine .passed ⟨?_, notComponent, notSet⟩
    unfold partNamed?
    split <;> first | contradiction | rfl

/-! ## Events -/

def Takes (r : Reader) : Event → Reader → Prop
  | .opening tag => Enters false r tag.localName
  | .empty tag => Enters true r tag.localName
  | .closing name => Leaves r (Xml.localName name)

theorem takes_of_step {e : Event} (h : r.step e = .ok r') : Takes r e r' := by
  cases e with
  | opening tag =>
    obtain ⟨attributes, -, entered⟩ := ok_of_bind h
    exact enters_of_enter entered
  | empty tag =>
    obtain ⟨attributes, -, entered⟩ := ok_of_bind h
    exact enters_of_enter entered
  | closing name => exact leaves_of_finish h

theorem report_of_result {report : ChangeReport} (h : r.result = .ok report) :
    r.changeSet = none ∧ r.report = some report := by
  unfold Reader.result at h
  split at h
  · cases h
  · next closed =>
    refine ⟨by simpa using closed, ?_⟩
    split at h
    · next known =>
      cases h
      exact known
    · cases h

def eventsOf (s : String) : List Event := (Xml.Document.scan (Text.dropMarks s.toList)).events

def documentOf (pieces : List String) : String := String.ofList (pieces.flatMap String.toList)

theorem toList_documentOf (pieces : List String) : (documentOf pieces).toList = pieces.flatMap String.toList :=
  String.toList_ofList

/-- What is read from a document is the report of a reader that took all its tags, one after the other,
    and has no change set open. -/
theorem taken_of_ofText {s : String} {report : ChangeReport} (h : ofText s = .ok report) :
    ∃ r : Reader, (eventsOf s).foldlM Reader.step {} = .ok r ∧ r.changeSet = none ∧ r.report = some report := by
  unfold ofText read at h
  obtain ⟨r, taken, h⟩ := ok_of_bind h
  refine ⟨r, taken, ?_⟩
  split at h
  · cases h
  · exact report_of_result h

end SandboxFetch.ChangeLog
