/-
  SandboxFetch.Report.Building — the report of an accept.

  A change set may change a versionable several times. What counts is the side before the first of
  these changes and the side after the last (`netChanges`); a versionable that exists on neither
  side is left out. When more than `listLimit` versionables remain, only their number is reported.

  A personal build loads a private state, not what came after the build before, and its report is
  empty.
-/

import SandboxFetch.Report.Basic

namespace SandboxFetch

/-- A change set that changes more versionables than this does not list them. -/
def listLimit : Nat := 256

/-- What stands for a path that the server could not tell. -/
def unknownPath : String := "<unknown>"

def addChange (change : Change) : List Change → List Change
  | [] => [change]
  | net :: rest =>
    if net.item = change.item then { net with after := change.after } :: rest else net :: addChange change rest

/-- One change for each versionable, in order of first appearance. -/
def netChanges (changes : List Change) : List Change := changes.foldl (fun net c => addChange c net) []

/-- Whether both paths are known and differ. -/
def Change.isMove (c : Change) : Bool :=
  match c.before.path, c.after.path with
  | some before, some after => before != after
  | _, _ => false

def Change.effect? (c : Change) : Option (ModificationKind × Option String) :=
  match c.before.state, c.after.state with
  | none, none => none
  | none, some after => some (.added, some after)
  | some before, none => some (.deleted, some before)
  | some before, some after =>
    if before = after then some (.unchanged, none)
    else some (if c.isMove then .movedAndModified else .modified, some after)

def ItemChange.of? (c : Change) : Option ItemChange :=
  c.effect?.map fun (kind, state) => ⟨c.path?.getD unknownPath, c.item, state, kind⟩

namespace ReportedChangeSet

def itemChanges (c : ChangeSet) : List ItemChange := (netChanges c.changes).filterMap ItemChange.of?

def of (c : ChangeSet) : ReportedChangeSet :=
  let changes := itemChanges c
  let tooMany := listLimit < changes.length
  {
    id := c.id
    component := c.component
    comment := c.comment
    timestamp := c.timestamp
    changes := if tooMany then [] else changes
    workItem := c.workItems.head?
    otherWorkItems := c.workItems.tail
    tooMany
    count := .ofNat changes.length }

end ReportedChangeSet

namespace ChangeReport

def group (sets : List ChangeSet) : Dict (List ReportedChangeSet) :=
  sets.foldl (fun d c => d.push c.component.id (.of c)) ∅

def ofOutcome (workspace : ItemId) (outcome : AcceptOutcome) (personal : Bool) : ChangeReport :=
  if personal then empty workspace true
  else {
    workspace
    baselineId := outcome.baseline.map (·.id)
    baselineName := outcome.baseline.map (·.name)
    personal
    componentChanges := outcome.componentChanges
    accepted := group outcome.accepted
    discarded := group outcome.discarded }

end ChangeReport

end SandboxFetch
