/-
  SandboxFetch.Load.Plan — what is loaded where.

  A plan has a destination and, for each component of the set, its scope and the folder below the
  destination that it goes to; an empty folder is the destination itself (`LoadPlan.targetDir`). The
  request to the server says the same with the folders resolved (`LoadPlan.request`).
-/

import SandboxFetch.Load.Request

namespace SandboxFetch

structure PlanEntry where
  component : Component
  scope : LoadScope
  /-- Relative to the destination; empty when components share it. -/
  folder : Path
  deriving DecidableEq, Repr

structure LoadPlan where
  root : Path
  entries : List PlanEntry
  deriving DecidableEq, Repr

namespace LoadPlan

def isEmpty (p : LoadPlan) : Bool := p.entries.isEmpty

def targetDir (p : LoadPlan) (e : PlanEntry) : Path := if e.folder.isEmpty then p.root else p.root.push e.folder

def ids (p : LoadPlan) : List ItemId := p.entries.map (·.component.id)

def names (p : LoadPlan) : List String := p.entries.map (·.component.name)

def request (p : LoadPlan) : LoadRequest :=
  ⟨p.root, p.entries.map fun e => ⟨e.component, e.scope, p.targetDir e⟩⟩

end LoadPlan

/-! ## JSON -/

namespace PlanEntry

def toJson (e : PlanEntry) : Json :=
  .object [("component", e.component.toJson), ("scope", e.scope.toTaggedJson), ("subpath", e.folder.toJson)]

def ofJson (v : Json) : Except Json.Fault PlanEntry := do
  let r ← Json.asRecord ["component", "scope", "subpath"] v
  return {
    component := ← r.required "component" Component.ofJson
    scope := ← r.required "scope" LoadScope.ofTaggedJson
    folder := ← r.required "subpath" Path.ofJson }

end PlanEntry

namespace LoadPlan

def toJson (p : LoadPlan) : Json :=
  .object [("destination_root", p.root.toJson), ("entries", Json.ofList PlanEntry.toJson p.entries)]

def ofJson (v : Json) : Except Json.Fault LoadPlan := do
  let r ← Json.asRecord ["destination_root", "entries"] v
  return {
    root := ← r.required "destination_root" Path.ofJson
    entries := ← r.required "entries" (Json.asList PlanEntry.ofJson) }

end LoadPlan

end SandboxFetch
