/-
  SandboxFetch.Repository.Fixture — the description of a repository.

  A fixture lists the sources of a server: their components with the files in them, the change sets
  that wait to be accepted, and the components that joined or left. Change sets name their component;
  ids and times may be left out and are given when the repository is built.
-/

import SandboxFetch.ChangeSet
import SandboxFetch.Load.Scope
import SandboxFetch.Repository.Fault

namespace SandboxFetch

structure ComponentFixture where
  id : Option ItemId
  name : String
  files : Dict String
  deriving DecidableEq

/-- The component with one more file, whose path is kept without separators at its ends. -/
def ComponentFixture.withFile (c : ComponentFixture) (path content : String) : ComponentFixture :=
  { c with files := c.files.insert (barePath path) content }

structure PendingFixture where
  component : String
  id : Option ItemId
  comment : Option String
  timestamp : Option Timestamp
  changes : List Change
  workItems : List WorkItem
  deriving DecidableEq

structure ComponentChangeFixture where
  component : String
  action : ComponentAction
  deriving DecidableEq, Repr

structure SourceFixture where
  kind : SourceKind
  name : String
  components : List ComponentFixture
  pending : List PendingFixture
  componentChanges : List ComponentChangeFixture
  deriving DecidableEq

/-- The ids that are given to components and change sets. -/
def SourceFixture.ids (s : SourceFixture) : List ItemId := s.components.filterMap (·.id) ++ s.pending.filterMap (·.id)

structure RepositoryFixture where
  version : ServerVersion
  sources : List SourceFixture

def RepositoryFixture.ids (f : RepositoryFixture) : List ItemId := f.sources.flatMap SourceFixture.ids

/-! ## JSON -/

namespace ServerVersion

def toJson (v : ServerVersion) : Json := .text v.text

def ofJson (v : Json) : Except Json.Fault ServerVersion := do
  let s ← Json.asText v
  match ofString? s with
  | .ok version => return version
  | .error fault => throw (.invalid fault.message)

end ServerVersion

namespace ComponentFixture

def toJson (c : ComponentFixture) : Json :=
  .object [("item_id", Json.ofOption .text c.id), ("name", .text c.name), ("files", Json.ofDict .text c.files)]

def ofJson (v : Json) : Except Json.Fault ComponentFixture := do
  let r ← Json.asRecord ["item_id", "name", "files"] v
  return {
    id := ← r.withDefault "item_id" none (Json.asOption Json.asText)
    name := ← r.required "name" Json.asText
    files := ← r.withDefault "files" ∅ (Json.asDict Json.asText) }

end ComponentFixture

namespace PendingFixture

def toJson (p : PendingFixture) : Json :=
  .object [("component", .text p.component), ("item_id", Json.ofOption .text p.id),
    ("comment", Json.ofOption .text p.comment), ("timestamp", Json.ofOption Timestamp.toJson p.timestamp),
    ("changes", Json.ofList Change.toJson p.changes), ("work_items", Json.ofList WorkItem.toJson p.workItems)]

def ofJson (v : Json) : Except Json.Fault PendingFixture := do
  let r ← Json.asRecord ["component", "item_id", "comment", "timestamp", "changes", "work_items"] v
  return {
    component := ← r.required "component" Json.asText
    id := ← r.withDefault "item_id" none (Json.asOption Json.asText)
    comment := ← r.withDefault "comment" none (Json.asOption Json.asText)
    timestamp := ← r.withDefault "timestamp" none (Json.asOption Timestamp.ofJson)
    changes := ← r.withDefault "changes" [] (Json.asList Change.ofJson)
    workItems := ← r.withDefault "work_items" [] (Json.asList WorkItem.ofJson) }

end PendingFixture

namespace ComponentChangeFixture

def toJson (c : ComponentChangeFixture) : Json :=
  .object [("component", .text c.component), ("action", c.action.toJson)]

def ofJson (v : Json) : Except Json.Fault ComponentChangeFixture := do
  let r ← Json.asRecord ["component", "action"] v
  return {
    component := ← r.required "component" Json.asText
    action := ← r.required "action" ComponentAction.ofJson }

end ComponentChangeFixture

namespace SourceFixture

def toJson (s : SourceFixture) : Json :=
  .object [("kind", s.kind.toJson), ("name", .text s.name),
    ("components", Json.ofList ComponentFixture.toJson s.components),
    ("pending", Json.ofList PendingFixture.toJson s.pending),
    ("component_changes", Json.ofList ComponentChangeFixture.toJson s.componentChanges)]

def ofJson (v : Json) : Except Json.Fault SourceFixture := do
  let r ← Json.asRecord ["kind", "name", "components", "pending", "component_changes"] v
  return {
    kind := ← r.required "kind" SourceKind.ofJson
    name := ← r.required "name" Json.asText
    components := ← r.withDefault "components" [] (Json.asList ComponentFixture.ofJson)
    pending := ← r.withDefault "pending" [] (Json.asList PendingFixture.ofJson)
    componentChanges := ← r.withDefault "component_changes" [] (Json.asList ComponentChangeFixture.ofJson) }

end SourceFixture

namespace RepositoryFixture

def toJson (f : RepositoryFixture) : Json :=
  .object [("server_version", f.version.toJson), ("sources", Json.ofList SourceFixture.toJson f.sources)]

def ofJson (v : Json) : Except Json.Fault RepositoryFixture := do
  let r ← Json.asRecord ["server_version", "sources"] v
  return {
    version := ← r.required "server_version" ServerVersion.ofJson
    sources := ← r.withDefault "sources" [] (Json.asList SourceFixture.ofJson) }

def ofText (s : String) : Except RepositoryError RepositoryFixture :=
  match Json.parse s >>= ofJson with
  | .ok fixture => .ok fixture
  | .error fault => .error (.invalidData (.undecodable fault))

end RepositoryFixture

end SandboxFetch
