/-
  SandboxFetch.Fetch.Running — a whole fetch.

  A run resolves its plan, empties the destination when it is to, accepts when it is to, loads, and
  writes a metadata file into the destination; it ends with a report and the build properties. Each
  step comes only after the one before it succeeded, and what was done before a failure stays.

  The server accepts whole components. A change set that touches no path its component loads is
  counted with the discarded ones afterwards (`AcceptOutcome.rescope`).
-/

import SandboxFetch.Fetch.Resolving
import SandboxFetch.Json.Writing
import SandboxFetch.Load.Digest
import SandboxFetch.Properties
import SandboxFetch.Report.Building

namespace SandboxFetch

/-! ## Scope of change sets -/

/-- Whether a change set touches something that a request loads, or nothing at all in one of its
    components. -/
def LoadRequest.covers (r : LoadRequest) (c : ChangeSet) : Bool :=
  match r.entryFor? c.component.id with
  | none => false
  | some e => c.changes.isEmpty || (c.changes.filterMap Change.path?).any e.scope.includes

/-- Moves the accepted change sets that a request does not cover behind the discarded ones. -/
def AcceptOutcome.rescope (o : AcceptOutcome) (r : LoadRequest) : AcceptOutcome :=
  let (accepted, outside) := o.accepted.partition r.covers
  { o with accepted, discarded := o.discarded ++ outside }

/-! ## Metadata -/

def metadataName : String := ".buildfetch.json"

structure SandboxMetadata where
  workspace : ItemId
  digest : String
  components : List String
  loadedAt : Timestamp

def SandboxMetadata.toJson (m : SandboxMetadata) : Json :=
  .object [("workspace_id", .text m.workspace), ("plan_digest", .text m.digest),
    ("components", Json.ofList .text m.components), ("loaded_at", m.loadedAt.toJson)]

/-! ## The run -/

structure FetchOutcome where
  resolved : ResolvedFetch
  /-- In the order they were written. -/
  files : List Path
  report : ChangeReport
  properties : Properties

namespace Fetch

def destinationExists (root : Path) : FetchM Bool := do
  match (← get).disk.status root with
  | .ok .directory => return true
  | .ok .absent => return false
  | .ok .file => throw (.environment (.notDirectory root))
  | .error fault => throw (.environment (.deleteFailed root fault))

/-- Empties the destination, if it is there, on a machine that may refuse some of it. -/
def clearDestination (root : Path) (h : Hindrances) : FetchM Unit := do
  if ← destinationExists root then
    (Site.onDisk (·.removeContents h root)).adapt fun (path, fault) => .environment (.deleteFailed path fault)

def ensureDestination (root : Path) : FetchM Unit := do
  if !(← destinationExists root) then
    (Site.onDisk (·.makeDirectories root)).adapt fun fault => .environment (.createFailed root fault)

def writeMetadata (r : ResolvedFetch) (now : Timestamp) : FetchM Unit := do
  let path := r.plan.root.push metadataName
  let metadata : SandboxMetadata := ⟨r.source.workspace, r.plan.digest, r.plan.names, now⟩
  let content := Json.toText Json.pretty metadata.toJson
  (Site.onDisk fun disk => disk.attempt (disk.write path content)).adapt
    fun fault => .environment (.writeFailed path fault)

def accept (r : ResolvedFetch) : FetchM AcceptOutcome := do
  Site.report ("Accepting changes into workspace " ++ r.source.workspace)
  let outcome ← served (Repository.accept r.source r.plan.ids)
  let outcome := outcome.rescope r.plan.request
  Site.report ("Accepted " ++ Text.writeNat outcome.accepted.length ++ " change sets, discarded " ++
    Text.writeNat outcome.discarded.length)
  return outcome

/-- The report and the properties of a run, given what was accepted if an accept ran. -/
def conclude (r : ResolvedFetch) (files : List Path) (accepted : Option AcceptOutcome) : FetchOutcome :=
  let c := r.configuration
  let outcome := accepted.getD {}
  let report := ChangeReport.ofOutcome r.source.workspace outcome c.isPersonal
  {
    resolved := r
    files, report
    properties := Properties.compute {
      configuration := c
      source := r.source
      reference := r.reference
      set := r.set
      accepted := accepted.map fun _ => report.acceptedCount
      baseline := if c.isPersonal then none else outcome.baseline } }

def run (m : Machine) (job : Configuration) : FetchM FetchOutcome := do
  let r ← resolve m job
  let root := r.plan.root
  if r.configuration.deleteFirst then
    Site.report ("Deleting contents of " ++ root.text)
    clearDestination root m.hindrances
  let accepted ← if r.configuration.acceptFirst then some <$> accept r else pure none
  Site.report ("Loading " ++ Text.writeNat r.plan.entries.length ++ " components into " ++ root.text)
  ensureDestination root
  let loaded ← (Site.load r.source r.plan.request).adapt .repository
  writeMetadata r m.now
  return conclude r loaded.files accepted

end Fetch

end SandboxFetch
