/-
  SandboxFetch.ChangeLog.Writing — a report as an XML document.

  The document is a declaration and one tag on each line, indented by two spaces for each tag that
  is open around it. A report has the sections `componentChanges`, `accepted` and `discarded`; an
  empty section is an empty tag. In the latter two the change sets of each component stand inside a
  `component` element, which has the name that the first of them gives the component. A change set
  without changes and work items is an empty tag.
-/

import SandboxFetch.Report.Basic
import SandboxFetch.Xml.Reference

namespace SandboxFetch.ChangeLog

def formatVersion : Nat := 1

inductive TagForm where
  | opening
  | empty
  | closing
  deriving DecidableEq, Repr

structure Line where
  /-- How many tags are open around it. -/
  depth : Nat
  form : TagForm
  name : String
  attributes : List (String × String) := []
  deriving DecidableEq, Repr

namespace Line

def writeAttribute (a : String × String) : List Char :=
  ' ' :: a.1.toList ++ ['=', '\x22'] ++ Xml.escape a.2.toList ++ ['\x22']

def write (l : Line) : List Char :=
  let content := l.name.toList ++ l.attributes.flatMap writeAttribute
  List.replicate (2 * l.depth) ' ' ++
    (match l.form with
      | .opening => '<' :: content ++ ['>']
      | .empty => '<' :: content ++ ['/', '>']
      | .closing => '<' :: '/' :: content ++ ['>']) ++ ['\n']

end Line

/-- An element with lines inside it, or an empty tag when there are none. -/
def element (depth : Nat) (name : String) (attributes : List (String × String)) (inner : List Line) : List Line :=
  if inner.isEmpty then [⟨depth, .empty, name, attributes⟩]
  else ⟨depth, .opening, name, attributes⟩ :: inner ++ [⟨depth, .closing, name, []⟩]

/-- An attribute that is only there when it has a value. -/
def optional (key : String) (value : Option String) : List (String × String) := (value.map fun v => (key, v)).toList

def writeFlag (b : Bool) : String := if b then "true" else "false"

def workItemLine (primary : Bool) (w : WorkItem) : Line :=
  ⟨4, .empty, "workItem", [("number", w.number), ("summary", w.summary), ("primary", writeFlag primary)]⟩

def changeLine (c : ItemChange) : Line :=
  ⟨4, .empty, "change", [("kind", c.kind.key), ("path", c.path), ("itemId", c.item)] ++ optional "stateId" c.state⟩

def changeSetLines (c : ReportedChangeSet) : List Line :=
  element 3 "changeSet"
    ([("itemId", c.id)] ++ optional "comment" c.comment ++
      [("date", c.timestamp.text), ("tooManyChanges", writeFlag c.tooMany), ("changeCount", Text.writeNat c.count.toNat)] ++
      optional "message" c.summary?)
    (c.changes.map changeLine ++ c.workItem.toList.map (workItemLine true) ++
      c.otherWorkItems.map (workItemLine false))

/-- The change sets of one component, which stand between tags even when there are none. -/
def componentLines (id : ItemId) (sets : List ReportedChangeSet) : List Line :=
  let name := (sets.head?.map (·.component.name)).getD ""
  ⟨2, .opening, "component", [("itemId", id), ("name", name)]⟩ :: sets.flatMap changeSetLines ++
    [⟨2, .closing, "component", []⟩]

def sectionLines (name : String) (sets : Dict (List ReportedChangeSet)) : List Line :=
  element 1 name [] (sets.toList.flatMap fun e => componentLines e.1 e.2)

def componentChangeLine (c : ComponentChange) : Line :=
  ⟨2, .empty, "component", [("itemId", c.component.id), ("name", c.component.name), ("action", c.action.key)]⟩

def rootAttributes (r : ChangeReport) : List (String × String) :=
  [("version", Text.writeNat formatVersion), ("workspaceItemId", r.workspace)] ++
    optional "baselineSetItemId" r.baselineId ++ optional "baselineSetName" r.baselineName ++
    [("personalBuild", writeFlag r.personal), ("changesAccepted", Text.writeNat r.acceptedCount),
      ("changesDiscarded", Text.writeNat r.discardedCount),
      ("componentChanges", Text.writeNat r.componentChanges.length)]

def lines (r : ChangeReport) : List Line :=
  element 0 "changelog" (rootAttributes r)
    (element 1 "componentChanges" [] (r.componentChanges.map componentChangeLine) ++
      sectionLines "accepted" r.accepted ++ sectionLines "discarded" r.discarded)

def declaration : List Char := "<?xml version=\"1.0\" encoding=\"UTF-8\"?>\n".toList

def write (r : ChangeReport) : List Char := declaration ++ (lines r).flatMap Line.write

def text (r : ChangeReport) : String := String.ofList (write r)

end SandboxFetch.ChangeLog
