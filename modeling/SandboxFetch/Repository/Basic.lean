/-
  SandboxFetch.Repository.Basic — a server that is held in memory.

  The server keeps a log of the operations that were called, failed ones included (`calls`). Each
  operation first enters the log and fails there when it was told to (`enter`). A source is found by
  kind and name when it is resolved, and by the workspace of its handle afterwards. Only an accept
  changes a source (`accept`); what a load writes is told by `filesFor`.
-/

import SandboxFetch.Repository.Source

namespace SandboxFetch

structure Repository where
  version : ServerVersion
  sources : List Source
  /-- What was called, as operation and source. -/
  calls : List (Operation × String) := []
  /-- The keys of the operations that fail. -/
  failing : List String := []
  /-- Where fresh ids come from. -/
  ids : IdSupply

/-- A computation on a server, whose state outlives a failure. -/
abbrev RepositoryM := ExceptT RepositoryError (StateM Repository)

namespace Repository

/-- The server that a fixture describes. No fresh id is one that the fixture gives. -/
def ofFixture (now : Timestamp) (ids : IdSupply) (f : RepositoryFixture) : Except RepositoryError Repository := do
  let (sources, ids) ← (f.sources.mapM (Source.ofFixture now)).run (ids.without f.ids)
  return { version := f.version, sources, ids }

def callText (call : Operation × String) : String := call.1.key ++ ":" ++ call.2

def failOn (r : Repository) (operation : String) : Repository := { r with failing := r.failing ++ [operation] }

def componentId? (r : Repository) (source component : String) : Option ItemId :=
  (r.sources.find? (·.name == source)).bind fun s => (Source.componentNamed? s.components component).map (·.id)

def sourceOf (r : Repository) (h : SourceHandle) : Except RepositoryError Source :=
  match r.sources.find? (·.workspace == h.workspace) with
  | some s => .ok s
  | none => .error (.sourceNotFound h.selection.kind h.selection.name)

def update (r : Repository) (workspace : ItemId) (s : Source) : Repository :=
  { r with sources := r.sources.map fun old => if old.workspace == workspace then s else old }

/-! ## Operations -/

/-- Logs a call, and fails when the operation is to fail. -/
def enter (operation : Operation) (source : String) : RepositoryM Unit := do
  modify fun r => { r with calls := r.calls ++ [(operation, source)] }
  if (← get).failing.contains operation.key then throw (.operationFailed operation .injected)

def testConnection : RepositoryM ServerVersion := do
  enter .testConnection "server"
  return (← get).version

def resolveSource (selection : Selection) : RepositoryM SourceHandle := do
  enter .resolveSource selection.name
  match (← get).sources.find? fun s => s.kind == selection.kind && s.name == selection.name with
  | some s => return ⟨selection, s.workspace, s.snapshot⟩
  | none => throw (.sourceNotFound selection.kind selection.name)

def listComponents (h : SourceHandle) : RepositoryM (List Component) := do
  enter .listComponents h.selection.name
  let s ← (← get).sourceOf h
  return s.components.map (·.component)

def contentOf (h : SourceHandle) (component : ItemId) (path : String) : RepositoryM String := do
  enter .readFile h.selection.name
  let s ← (← get).sourceOf h
  s.read component path

def accept (h : SourceHandle) (components : List ItemId) : RepositoryM AcceptOutcome := do
  enter .accept h.selection.name
  let r ← get
  let s ← r.sourceOf h
  let (baselineId, ids) := r.ids.draw
  let (outcome, next) := s.accept components baselineId
  set { r.update h.workspace next with ids }
  return outcome

def filesFor (h : SourceHandle) (request : LoadRequest) : RepositoryM (List (Path × String)) := do
  enter .load h.selection.name
  let s ← (← get).sourceOf h
  s.filesFor request

end Repository

end SandboxFetch
