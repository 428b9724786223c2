/-
  SandboxFetch.ChangeLog.Reading — the report in an XML document.

  The tags of the document are taken in order by `Reader.step`; elements and attributes are known by
  their local names, and of two attributes with one local name the later one counts. Tags that mean
  nothing where they stand are passed over, but their attributes are still looked at. A section
  begins at its opening tag and ends at its closing tag, an empty tag begins none.

  A change set enters the report at its closing tag, with all that was read inside it; one that is
  still open at the end makes the document malformed. Its count is at least the number of changes
  listed, unless they are too many to list.
-/

import SandboxFetch.ChangeLog.Fault
import SandboxFetch.ChangeLog.Writing

namespace SandboxFetch.ChangeLog

open Xml (Event Tag)

/-! ## Attributes -/

def addAttribute (d : Dict String) (a : Xml.Attribute) : Except Error (Dict String) :=
  match Xml.unescape a.rawValue with
  | .ok value => .ok (d.insert a.localKey (String.ofList value))
  | .error fault => .error (.malformed (.badReference a.localKey fault))

def attributesOf (tag : Tag) : Except Error (Dict String) := do
  let attributes := tag.attributes
  let values ← attributes.found.foldlM addAttribute ∅
  match attributes.fault? with
  | some fault => throw (.attribute fault)
  | none => return values

def required (attributes : Dict String) (element key : String) : Except Error String :=
  match attributes.get? key with
  | some value => .ok value
  | none => .error (.malformed (.missing element key))

/-- A flag, which is off when it is left out. -/
def readFlag (attributes : Dict String) (element key : String) : Except Error Bool :=
  match attributes.get? key with
  | none => .ok false
  | some "true" => .ok true
  | some "false" => .ok false
  | some value => .error (.malformed (.notBoolean element key value))

/-! ## Elements -/

def openReport (attributes : Dict String) : Except Error ChangeReport := do
  if let some version := attributes.get? "version" then
    if Text.readNat? Text.word32 version.toList ≠ some formatVersion then
      throw (.malformed (.unsupportedVersion version))
  let workspace ← required attributes "changelog" "workspaceItemId"
  let personal ← readFlag attributes "changelog" "personalBuild"
  return { ChangeReport.empty workspace personal with
    baselineId := attributes.get? "baselineSetItemId"
    baselineName := attributes.get? "baselineSetName" }

def readComponentChange (attributes : Dict String) : Except Error ComponentChange := do
  let key ← required attributes "component" "action"
  match ComponentAction.byKey.lookup key with
  | none => throw (.malformed (.unknownAction key))
  | some action =>
    let id ← required attributes "component" "itemId"
    return ⟨⟨id, (attributes.get? "name").getD ""⟩, action⟩

def readCount (attributes : Dict String) : Except Error UInt64 :=
  match attributes.get? "changeCount" with
  | none => .ok 0
  | some text =>
    match Text.readNat? Text.word64 text.toList with
    | some n => .ok (.ofNat n)
    | none => .error (.malformed (.badCount text))

def openChangeSet (attributes : Dict String) (component : Option Component) : Except Error ReportedChangeSet := do
  match component with
  | none => throw (.malformed .changeSetOutsideComponent)
  | some component =>
    let date ← required attributes "changeSet" "date"
    match Timestamp.ofText? date with
    | none => throw (.malformed (.badDate date))
    | some timestamp =>
      let count ← readCount attributes
      let id ← required attributes "changeSet" "itemId"
      let tooMany ← readFlag attributes "changeSet" "tooManyChanges"
      return {
        id, component, timestamp, tooMany, count
        comment := attributes.get? "comment"
        changes := []
        workItem := none
        otherWorkItems := [] }

def readItemChange (attributes : Dict String) : Except Error ItemChange := do
  let key ← required attributes "change" "kind"
  match ModificationKind.ofKey? key with
  | none => throw (.malformed (.unknownKind key))
  | some kind =>
    let path ← required attributes "change" "path"
    let item ← required attributes "change" "itemId"
    return ⟨path, item, attributes.get? "stateId", kind⟩

/-- A work item, and whether it is the primary one. -/
def readWorkItem (attributes : Dict String) : Except Error (WorkItem × Bool) := do
  let number ← required attributes "workItem" "number"
  let primary ← readFlag attributes "workItem" "primary"
  return (⟨number, (attributes.get? "summary").getD ""⟩, primary)

/-! ## The reader -/

inductive Section where
  | outside
  | componentChanges
  | accepted
  | discarded
  deriving DecidableEq, Repr

structure Reader where
  report : Option ChangeReport := none
  part : Section := .outside
  component : Option Component := none
  /-- The change set whose closing tag has not come yet. -/
  changeSet : Option ReportedChangeSet := none
  deriving DecidableEq

namespace Reader

def changeSets (r : Reader) (f : Dict (List ReportedChangeSet) → Dict (List ReportedChangeSet)) :
    Except Error Reader :=
  match r.report, r.part with
  | none, _ => .error (.malformed .changeSetsBeforeRoot)
  | some report, .accepted => .ok { r with report := some { report with accepted := f report.accepted } }
  | some report, .discarded => .ok { r with report := some { report with discarded := f report.discarded } }
  | some _, _ => .error (.malformed .changeSetOutsideSection)

/-- A change set with the count that its listed changes ask for. -/
def settleCount (c : ReportedChangeSet) : ReportedChangeSet :=
  if c.tooMany then c else { c with count := max c.count (.ofNat c.changes.length) }

def pushChangeSet (r : Reader) (c : ReportedChangeSet) : Except Error Reader :=
  r.changeSets (·.push c.component.id (settleCount c))

/-- Takes a `component` tag, which means one thing among component changes and another around
    change sets. -/
def component? (r : Reader) (isEmpty : Bool) (attributes : Dict String) : Except Error Reader :=
  match r.part with
  | .outside => .ok r
  | .componentChanges => do
    let change ← readComponentChange attributes
    match r.report with
    | none => throw (.malformed .componentBeforeRoot)
    | some report =>
      return { r with report := some { report with componentChanges := report.componentChanges ++ [change] } }
  | .accepted | .discarded => do
    let id ← required attributes "component" "itemId"
    let r ← r.changeSets (·.reserve id)
    return if isEmpty then r else { r with component := some ⟨id, (attributes.get? "name").getD ""⟩ }

def openSet (r : Reader) (isEmpty : Bool) (attributes : Dict String) : Except Error Reader :=
  if r.part = .accepted ∨ r.part = .discarded then do
    let c ← openChangeSet attributes r.component
    if isEmpty then r.pushChangeSet c else return { r with changeSet := some c }
  else .ok r

def addItemChange (r : Reader) (attributes : Dict String) : Except Error Reader := do
  let change ← readItemChange attributes
  match r.changeSet with
  | none => throw (.malformed .changeOutsideChangeSet)
  | some c => return { r with changeSet := some { c with changes := c.changes ++ [change] } }

def addWorkItem (r : Reader) (attributes : Dict String) : Except Error Reader := do
  let (item, primary) ← readWorkItem attributes
  match r.changeSet with
  | none => throw (.malformed .workItemOutsideChangeSet)
  | some c =>
    return { r with changeSet := some (
      if primary && c.workItem.isNone then { c with workItem := some item }
      else { c with otherWorkItems := c.otherWorkItems ++ [item] }) }

def enter (r : Reader) (isEmpty : Bool) (name : String) (attributes : Dict String) : Except Error Reader := do
  match name with
  | "changelog" => return { r with report := some (← openReport attributes) }
  | "componentChanges" => return if isEmpty then r else { r with part := .componentChanges }
  | "accepted" => return if isEmpty then r else { r with part := .accepted }
  | "discarded" => return if isEmpty then r else { r with part := .discarded }
  | "component" => r.component? isEmpty attributes
  | "changeSet" => r.openSet isEmpty attributes
  | "change" => r.addItemChange attributes
  | "workItem" => r.addWorkItem attributes
  | _ => return r

def start (r : Reader) (isEmpty : Bool) (tag : Tag) : Except Error Reader := do
  r.enter isEmpty tag.localName (← attributesOf tag)

def finish (r : Reader) (name : String) : Except Error Reader :=
  match name with
  | "changeSet" =>
    match r.changeSet with
    | none => .error (.malformed .unbalancedChangeSet)
    | some c => { r with changeSet := none }.pushChangeSet c
  | "component" => .ok { r with component := none }
  | "componentChanges" | "accepted" | "discarded" => .ok { r with part := .outside }
  | _ => .ok r

def step (r : Reader) : Event → Except Error Reader
  | .opening tag => r.start false tag
  | .empty tag => r.start true tag
  | .closing name => r.finish (Xml.localName name)

def result (r : Reader) : Except Error ChangeReport :=
  if r.changeSet.isSome then .error (.malformed .unfinishedChangeSet)
  else
    match r.report with
    | some report => .ok report
    | none => .error (.malformed .noRoot)

end Reader

def read (cs : List Char) : Except Error ChangeReport := do
  let document := Xml.Document.scan (Text.dropMarks cs)
  let reader ← document.events.foldlM Reader.step {}
  match document.fault? with
  | some fault => throw (.markup fault)
  | none => reader.result

def ofText (s : String) : Except Error ChangeReport := read s.toList

end SandboxFetch.ChangeLog
