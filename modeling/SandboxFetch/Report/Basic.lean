/-
  SandboxFetch.Report.Basic — what changed since the build before.

  A report lists the change sets that were accepted and those that were left, by the id of their
  component and in the order of the server, the components that joined or left, and the baseline
  that the accept made. Of a change set it tells the net effect on each versionable
  (`ItemChange`), or only how many versionables there are when they are too many to list.
-/

import SandboxFetch.ChangeSet

namespace SandboxFetch

inductive ModificationKind where
  | added
  | modified
  | deleted
  | movedAndModified
  /-- The states before and after are the same one. -/
  | unchanged
  deriving DecidableEq, Repr

namespace ModificationKind

def key : ModificationKind → String
  | .added => "Added"
  | .modified => "Modified"
  | .deleted => "Deleted"
  | .movedAndModified => "Modified and Moved"
  | .unchanged => "No changes"

def all : List ModificationKind := [.added, .modified, .deleted, .movedAndModified, .unchanged]

def byKey : List (String × ModificationKind) := all.map fun k => (k.key, k)

def ofKey? (s : String) : Option ModificationKind := byKey.lookup s

theorem ofKey?_key (k : ModificationKind) : ofKey? k.key = some k := by cases k <;> decide

end ModificationKind

structure ItemChange where
  path : String
  item : ItemId
  /-- The state after the change, or the one that a deletion ended. -/
  state : Option String
  kind : ModificationKind
  deriving DecidableEq, Repr

structure ReportedChangeSet where
  id : ItemId
  component : Component
  comment : Option String
  timestamp : Timestamp
  /-- Empty when there are too many. -/
  changes : List ItemChange
  workItem : Option WorkItem
  otherWorkItems : List WorkItem
  tooMany : Bool
  /-- How many versionables changed, listed or not, in a 64-bit word. -/
  count : UInt64
  deriving DecidableEq

/-- What stands in place of a list that is too long. -/
def ReportedChangeSet.summary? (c : ReportedChangeSet) : Option String :=
  if c.tooMany then some (Text.writeNat c.count.toNat ++ " changes") else none

structure ChangeReport where
  workspace : ItemId
  baselineId : Option ItemId
  baselineName : Option String
  personal : Bool
  componentChanges : List ComponentChange
  accepted : Dict (List ReportedChangeSet)
  discarded : Dict (List ReportedChangeSet)
  deriving DecidableEq

namespace ChangeReport

def empty (workspace : ItemId) (personal : Bool) : ChangeReport :=
  ⟨workspace, none, none, personal, [], ∅, ∅⟩

def countSets (sets : Dict (List ReportedChangeSet)) : Nat := sets.values.flatten.length

def acceptedCount (r : ChangeReport) : Nat := countSets r.accepted

def discardedCount (r : ChangeReport) : Nat := countSets r.discarded

def isEmpty (r : ChangeReport) : Bool :=
  r.acceptedCount == 0 && r.discardedCount == 0 && r.componentChanges.isEmpty

end ChangeReport

/-! ## JSON -/

namespace ModificationKind

def toJson (k : ModificationKind) : Json := .text k.key

def ofJson (v : Json) : Except Json.Fault ModificationKind := Json.asName byKey v

end ModificationKind

namespace ItemChange

def toJson (c : ItemChange) : Json :=
  .object [("path", .text c.path), ("item_id", .text c.item), ("state_id", Json.ofOption .text c.state),
    ("kind", c.kind.toJson)]

def ofJson (v : Json) : Except Json.Fault ItemChange := do
  let r ← Json.asRecord ["path", "item_id", "state_id", "kind"] v
  return {
    path := ← r.required "path" Json.asText
    item := ← r.required "item_id" Json.asText
    state := ← r.optional "state_id" Json.asText
    kind := ← r.required "kind" ModificationKind.ofJson }

end ItemChange

namespace ReportedChangeSet

def keys : List String :=
  ["change_set_id", "component_id", "component_name", "comment", "timestamp", "affected_versionables", "work_item",
    "additional_work_items", "is_too_many_changes", "change_count"]

def toJson (c : ReportedChangeSet) : Json :=
  .object [("change_set_id", .text c.id), ("component_id", .text c.component.id),
    ("component_name", .text c.component.name), ("comment", Json.ofOption .text c.comment),
    ("timestamp", c.timestamp.toJson), ("affected_versionables", Json.ofList ItemChange.toJson c.changes),
    ("work_item", Json.ofOption WorkItem.toJson c.workItem),
    ("additional_work_items", Json.ofList WorkItem.toJson c.otherWorkItems),
    ("is_too_many_changes", .bool c.tooMany), ("change_count", Json.ofNat c.count.toNat)]

def ofJson (v : Json) : Except Json.Fault ReportedChangeSet := do
  let r ← Json.asRecord keys v
  return {
    id := ← r.required "change_set_id" Json.asText
    component := {
      id := ← r.required "component_id" Json.asText
      name := ← r.required "component_name" Json.asText }
    comment := ← r.optional "comment" Json.asText
    timestamp := ← r.required "timestamp" Timestamp.ofJson
    changes := ← r.required "affected_versionables" (Json.asList ItemChange.ofJson)
    workItem := ← r.optional "work_item" WorkItem.ofJson
    otherWorkItems := ← r.required "additional_work_items" (Json.asList WorkItem.ofJson)
    tooMany := ← r.required "is_too_many_changes" Json.asBool
    count := .ofNat (← r.required "change_count" (Json.asNat Text.word64)) }

end ReportedChangeSet

namespace ComponentChange

/-- The form without a nested record. -/
def toFlatJson (c : ComponentChange) : Json :=
  .object [("item_id", .text c.component.id), ("name", .text c.component.name), ("action", c.action.toJson)]

def ofFlatJson (v : Json) : Except Json.Fault ComponentChange := do
  let r ← Json.asRecord ["item_id", "name", "action"] v
  return {
    component := {
      id := ← r.required "item_id" Json.asText
      name := ← r.required "name" Json.asText }
    action := ← r.required "action" ComponentAction.ofJson }

end ComponentChange

namespace ChangeReport

def keys : List String :=
  ["workspace_item_id", "baseline_set_item_id", "baseline_set_name", "personal_build", "component_changes",
    "change_sets_accepted", "change_sets_discarded"]

def toJson (r : ChangeReport) : Json :=
  .object [("workspace_item_id", .text r.workspace), ("baseline_set_item_id", Json.ofOption .text r.baselineId),
    ("baseline_set_name", Json.ofOption .text r.baselineName), ("personal_build", .bool r.personal),
    ("component_changes", Json.ofList ComponentChange.toFlatJson r.componentChanges),
    ("change_sets_accepted", Json.ofDict (Json.ofList ReportedChangeSet.toJson) r.accepted),
    ("change_sets_discarded", Json.ofDict (Json.ofList ReportedChangeSet.toJson) r.discarded)]

def ofJson (v : Json) : Except Json.Fault ChangeReport := do
  let r ← Json.asRecord keys v
  return {
    workspace := ← r.required "workspace_item_id" Json.asText
    baselineId := ← r.optional "baseline_set_item_id" Json.asText
    baselineName := ← r.optional "baseline_set_name" Json.asText
    personal := ← r.required "personal_build" Json.asBool
    componentChanges := ← r.required "component_changes" (Json.asList ComponentChange.ofFlatJson)
    accepted := ← r.required "change_sets_accepted" (Json.asDict (Json.asList ReportedChangeSet.ofJson))
    discarded := ← r.required "change_sets_discarded" (Json.asDict (Json.asList ReportedChangeSet.ofJson)) }

end ChangeReport

end SandboxFetch
