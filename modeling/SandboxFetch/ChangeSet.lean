/-
  SandboxFetch.ChangeSet — change data as the server hands it out.

  A change set belongs to one component and lists what it did to versionables. Each change has a
  side before and a side after (`Side`). A side without a state says that the versionable did not
  exist there; a side without a path says that the server could not tell the path, as happens for a
  dropped component.

  An accept answers with the change sets it took, those it left pending, the components that joined
  or left, and the baseline it made (`AcceptOutcome`).
-/

import SandboxFetch.Component
import SandboxFetch.Timestamp.Rfc3339

namespace SandboxFetch

/-! ## Times in JSON -/

namespace Timestamp

def toJson (t : Timestamp) : Json := .text t.text

def ofJson (v : Json) : Except Json.Fault Timestamp := do
  let s ← Json.asText v
  match ofLooseText? s with
  | some t => return t
  | none => throw (.invalid ("no such time: " ++ s))

end Timestamp

/-! ## Change sets -/

structure WorkItem where
  number : String
  summary : String
  deriving DecidableEq, Repr

structure Side where
  path : Option String
  state : Option String
  deriving DecidableEq, Repr

structure Change where
  item : ItemId
  before : Side
  after : Side
  deriving DecidableEq, Repr

/-- The best path known for the versionable: the one after the change, else the one before. -/
def Change.path? (c : Change) : Option String := c.after.path <|> c.before.path

structure ChangeSet where
  id : ItemId
  component : Component
  comment : Option String
  timestamp : Timestamp
  changes : List Change
  /-- The first one is the primary work item. -/
  workItems : List WorkItem
  deriving DecidableEq

inductive ComponentAction where
  | add
  | drop
  deriving DecidableEq, Repr

def ComponentAction.key : ComponentAction → String
  | .add => "add"
  | .drop => "drop"

structure ComponentChange where
  component : Component
  action : ComponentAction
  deriving DecidableEq, Repr

structure Baseline where
  id : ItemId
  name : String
  deriving DecidableEq, Repr

structure AcceptOutcome where
  accepted : List ChangeSet := []
  discarded : List ChangeSet := []
  componentChanges : List ComponentChange := []
  baseline : Option Baseline := none
  deriving DecidableEq

/-! ## JSON -/

namespace WorkItem

def toJson (w : WorkItem) : Json := .object [("number", .text w.number), ("summary", .text w.summary)]

def ofJson (v : Json) : Except Json.Fault WorkItem := do
  let r ← Json.asRecord ["number", "summary"] v
  return { number := ← r.required "number" Json.asText, summary := ← r.required "summary" Json.asText }

end WorkItem

namespace Change

def toJson (c : Change) : Json :=
  .object [("item_id", .text c.item), ("before_path", Json.ofOption .text c.before.path),
    ("after_path", Json.ofOption .text c.after.path), ("before_state", Json.ofOption .text c.before.state),
    ("after_state", Json.ofOption .text c.after.state)]

def ofJson (v : Json) : Except Json.Fault Change := do
  let r ← Json.asRecord ["item_id", "before_path", "after_path", "before_state", "after_state"] v
  let text? (key : String) := r.withDefault key none (Json.asOption Json.asText)
  return {
    item := ← r.required "item_id" Json.asText
    before := { path := ← text? "before_path", state := ← text? "before_state" }
    after := { path := ← text? "after_path", state := ← text? "after_state" } }

end Change

namespace ChangeSet

def toJson (c : ChangeSet) : Json :=
  .object [("item_id", .text c.id), ("component", c.component.toJson), ("comment", Json.ofOption .text c.comment),
    ("timestamp", c.timestamp.toJson), ("changes", Json.ofList Change.toJson c.changes),
    ("work_items", Json.ofList WorkItem.toJson c.workItems)]

def ofJson (v : Json) : Except Json.Fault ChangeSet := do
  let r ← Json.asRecord ["item_id", "component", "comment", "timestamp", "changes", "work_items"] v
  return {
    id := ← r.required "item_id" Json.asText
    component := ← r.required "component" Component.ofJson
    comment := ← r.withDefault "comment" none (Json.asOption Json.asText)
    timestamp := ← r.required "timestamp" Timestamp.ofJson
    changes := ← r.withDefault "changes" [] (Json.asList Change.ofJson)
    workItems := ← r.withDefault "work_items" [] (Json.asList WorkItem.ofJson) }

end ChangeSet

namespace ComponentAction

def byKey : List (String × ComponentAction) := [add, drop].map fun a => (a.key, a)

def toJson (a : ComponentAction) : Json := .text a.key

def ofJson (v : Json) : Except Json.Fault ComponentAction := Json.asName byKey v

end ComponentAction

namespace ComponentChange

def toJson (c : ComponentChange) : Json :=
  .object [("component", c.component.toJson), ("action", c.action.toJson)]

def ofJson (v : Json) : Except Json.Fault ComponentChange := do
  let r ← Json.asRecord ["component", "action"] v
  return {
    component := ← r.required "component" Component.ofJson
    action := ← r.required "action" ComponentAction.ofJson }

end ComponentChange

namespace Baseline

def toJson (b : Baseline) : Json := .object [("item_id", .text b.id), ("name", .text b.name)]

def ofJson (v : Json) : Except Json.Fault Baseline := do
  let r ← Json.asRecord ["item_id", "name"] v
  return { id := ← r.required "item_id" Json.asText, name := ← r.required "name" Json.asText }

end Baseline

namespace AcceptOutcome

def toJson (o : AcceptOutcome) : Json :=
  .object [("accepted", Json.ofList ChangeSet.toJson o.accepted),
    ("discarded", Json.ofList ChangeSet.toJson o.discarded),
    ("component_changes", Json.ofList ComponentChange.toJson o.componentChanges),
    ("baseline", Json.ofOption Baseline.toJson o.baseline)]

def ofJson (v : Json) : Except Json.Fault AcceptOutcome := do
  let r ← Json.asRecord ["accepted", "discarded", "component_changes", "baseline"] v
  return {
    accepted := ← r.required "accepted" (Json.asList ChangeSet.ofJson)
    discarded := ← r.required "discarded" (Json.asList ChangeSet.ofJson)
    componentChanges := ← r.required "component_changes" (Json.asList ComponentChange.ofJson)
    baseline := ← r.optional "baseline" Baseline.ofJson }

end AcceptOutcome

end SandboxFetch
