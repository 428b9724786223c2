/-
  SandboxFetch.Selection — which state of the repository a build loads.

  A build loads from a workspace, a stream, a snapshot or the workspace of a build definition, each
  known by its name or, for a definition, its id. A stream or snapshot is loaded through a workspace
  that the server creates; the handle of a resolved selection always names the workspace that is
  accepted into and loaded from (`SourceHandle`).

  In JSON a selection is a record with its kind under `type`. The whole of it is read, members that
  it does not know included, so each of them has to be readable.
-/

import SandboxFetch.Component

namespace SandboxFetch

inductive SourceKind where
  | workspace
  | stream
  | snapshot
  | definition
  deriving DecidableEq, Repr

namespace SourceKind

/-- The kind as messages name it. -/
def label : SourceKind → String
  | .workspace => "Repository workspace"
  | .stream => "Stream"
  | .snapshot => "Snapshot"
  | .definition => "Build definition"

/-- The kind as data files name it. -/
def key : SourceKind → String
  | .workspace => "repository_workspace"
  | .stream => "stream"
  | .snapshot => "snapshot"
  | .definition => "build_definition"

def all : List SourceKind := [.workspace, .stream, .snapshot, .definition]

def byKey : List (String × SourceKind) := all.map fun k => (k.key, k)

def nameKey : SourceKind → String
  | .definition => "id"
  | _ => "name"

def toJson (k : SourceKind) : Json := .text k.key

def ofJson (v : Json) : Except Json.Fault SourceKind := Json.asName byKey v

end SourceKind

structure Selection where
  kind : SourceKind
  name : String
  deriving DecidableEq, Repr

namespace Selection

def text (s : Selection) : String := s.kind.label ++ " '" ++ s.name ++ "'"

def toJson (s : Selection) : Json := .object [("type", .text s.kind.key), (s.kind.nameKey, .text s.name)]

def depthLimit : Nat := 125

def kindOfTag (tag : Json) : Except Json.Fault SourceKind := do
  let name ← Json.asText tag
  match SourceKind.byKey.lookup name with
  | some kind => return kind
  | none => throw (.unknownName name)

def splitTag : Json → Except Json.Fault (SourceKind × Json)
  | .object members => do
    let r ← Json.asRecord ["type"] (.object members)
    let kind ← r.required "type" kindOfTag
    return (kind, .object (members.filter fun m => m.1 != "type"))
  | .array (tag :: items) => do return (← kindOfTag tag, .array items)
  | _ => throw (.expected "a selection")

def ofJson (v : Json) : Except Json.Fault Selection := do
  let (kind, rest) ← splitTag v
  if rest.isReadable (depthLimit + 1) then
    let r ← Json.asRecord [kind.nameKey] rest
    return ⟨kind, ← r.required kind.nameKey Json.asText⟩
  else throw (.expected "readable members")

end Selection

structure SourceHandle where
  selection : Selection
  workspace : ItemId
  snapshot : Option ItemId
  deriving DecidableEq, Repr

namespace SourceHandle

def toJson (h : SourceHandle) : Json :=
  .object [("selection", h.selection.toJson), ("workspace_id", .text h.workspace),
    ("snapshot_id", Json.ofOption .text h.snapshot)]

def ofJson (v : Json) : Except Json.Fault SourceHandle := do
  let r ← Json.asRecord ["selection", "workspace_id", "snapshot_id"] v
  return {
    selection := ← r.required "selection" Selection.ofJson
    workspace := ← r.required "workspace_id" Json.asText
    snapshot := ← r.optional "snapshot_id" Json.asText }

end SourceHandle

end SandboxFetch
