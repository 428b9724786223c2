/-
  SandboxFetch.Load.Request — what the server is asked to load, and what it loaded.
-/

import SandboxFetch.Component
import SandboxFetch.Load.Scope
import SandboxFetch.Path

namespace SandboxFetch

structure LoadEntry where
  component : Component
  scope : LoadScope
  /-- Where the component's tree is rooted. -/
  target : Path
  deriving DecidableEq, Repr

structure LoadRequest where
  /-- What every target begins with. -/
  root : Path
  entries : List LoadEntry
  deriving DecidableEq, Repr

/-- The files that were written, in order; a file written twice is named twice. -/
structure LoadOutcome where
  files : List Path
  deriving DecidableEq, Repr

namespace LoadEntry

def toJson (e : LoadEntry) : Json :=
  .object [("component", e.component.toJson), ("selections", e.scope.toJson), ("target_dir", e.target.toJson)]

def ofJson (v : Json) : Except Json.Fault LoadEntry := do
  let r ← Json.asRecord ["component", "selections", "target_dir"] v
  return {
    component := ← r.required "component" Component.ofJson
    scope := (← r.optional "selections" LoadScope.ofJson).getD .full
    target := ← r.required "target_dir" Path.ofJson }

end LoadEntry

namespace LoadRequest

def entryFor? (r : LoadRequest) (id : ItemId) : Option LoadEntry := r.entries.find? (·.component.id == id)

def toJson (r : LoadRequest) : Json :=
  .object [("destination_root", r.root.toJson), ("entries", Json.ofList LoadEntry.toJson r.entries)]

def ofJson (v : Json) : Except Json.Fault LoadRequest := do
  let r ← Json.asRecord ["destination_root", "entries"] v
  return {
    root := ← r.required "destination_root" Path.ofJson
    entries := ← r.required "entries" (Json.asList LoadEntry.ofJson) }

end LoadRequest

def LoadOutcome.toJson (o : LoadOutcome) : Json := .object [("files_written", Json.ofList Path.toJson o.files)]

end SandboxFetch
