/-
  SandboxFetch.Repository.Source — one workspace, stream, snapshot or definition of a server.

  A source is built from its fixture with fresh ids for what has none (`Source.ofFixture`); a
  pending change set of a component that the source does not have is refused, while a component that
  left need not be there any more.

  An accept takes the pending change sets of the given components and leaves the others pending
  (`Source.accept`). The first accept takes all component changes. Every accept makes a baseline,
  numbered from 1, except on a snapshot.
-/

import SandboxFetch.Load.Request
import SandboxFetch.Repository.Fixture
import SandboxFetch.Repository.IdSupply

namespace SandboxFetch

/-! ## Fresh ids -/

abbrev Fresh := StateT IdSupply (Except RepositoryError)

def Fresh.id : Fresh ItemId := fun ids => .ok ids.draw

def Fresh.orId : Option ItemId → Fresh ItemId
  | some given => pure given
  | none => Fresh.id

/-! ## Sources -/

structure StoredComponent where
  component : Component
  files : Dict String
  deriving DecidableEq

structure Source where
  kind : SourceKind
  name : String
  workspace : ItemId
  snapshot : Option ItemId
  components : List StoredComponent
  /-- The change sets that wait to be accepted. -/
  pending : List ChangeSet
  /-- What the next accept reports about components. -/
  componentChanges : List ComponentChange
  /-- How many baselines were made, in a 32-bit word. -/
  baselines : UInt32
  deriving DecidableEq

namespace Source

/-- The component with a name, white space included. -/
def componentNamed? (components : List StoredComponent) (name : String) : Option Component :=
  (components.find? (·.component.name == name)).map (·.component)

def storeComponent (f : ComponentFixture) : Fresh StoredComponent := do
  return ⟨⟨← Fresh.orId f.id, f.name⟩, f.files⟩

/-- A pending change set; one without a time is as of now. -/
def pendingOf (now : Timestamp) (source : String) (components : List StoredComponent) (f : PendingFixture) :
    Fresh ChangeSet := do
  let id ← Fresh.orId f.id
  match componentNamed? components f.component with
  | none => throw (.invalidData (.unknownComponent f.component source))
  | some component =>
    return {
      id, component
      comment := f.comment
      timestamp := f.timestamp.getD now
      changes := f.changes
      workItems := f.workItems }

def componentChangeOf (components : List StoredComponent) (f : ComponentChangeFixture) : Fresh ComponentChange := do
  match componentNamed? components f.component with
  | some component => return ⟨component, f.action⟩
  | none => return ⟨⟨← Fresh.id, f.component⟩, f.action⟩

def ofFixture (now : Timestamp) (f : SourceFixture) : Fresh Source := do
  let components ← f.components.mapM storeComponent
  let pending ← f.pending.mapM (pendingOf now f.name components)
  let componentChanges ← f.componentChanges.mapM (componentChangeOf components)
  let snapshot ← if f.kind = .snapshot then some <$> Fresh.id else pure none
  let workspace ← Fresh.id
  return { kind := f.kind, name := f.name, workspace, snapshot, components, pending, componentChanges, baselines := 0 }

/-! ## Operations -/

def component? (s : Source) (id : ItemId) : Option StoredComponent := s.components.find? (·.component.id == id)

/-- The content of a file, whose path may have separators at its ends. -/
def read (s : Source) (id : ItemId) (path : String) : Except RepositoryError String :=
  match s.component? id with
  | none => .error (.itemNotFound id path)
  | some c =>
    match c.files.get? (barePath path) with
    | none => .error (.itemNotFound c.component.name path)
    | some content => .ok content

def makesBaselines (s : Source) : Bool := s.kind != .snapshot

def baselineName (s : Source) (number : UInt32) : String := s.name ++ " build #" ++ Text.writeNat number.toNat

def accept (s : Source) (ids : List ItemId) (baselineId : ItemId) : AcceptOutcome × Source :=
  let (accepted, discarded) := s.pending.partition fun c => ids.contains c.component.id
  let number := s.baselines + 1
  let outcome : AcceptOutcome := {
    accepted, discarded
    componentChanges := s.componentChanges
    baseline := if s.makesBaselines then some ⟨baselineId, s.baselineName number⟩ else none }
  (outcome, { s with
    pending := discarded
    componentChanges := []
    baselines := if s.makesBaselines then number else s.baselines })

def filesOf (s : Source) (root : Path) (e : LoadEntry) : Except RepositoryError (List (Path × String)) :=
  if !e.target.startsWith root then .error (.operationFailed .load (.outsideDestination e.target root))
  else
    match s.component? e.component.id with
    | none => .error (.itemNotFound e.component.name "/")
    | some c =>
      let wanted := c.files.toList.filter fun f => e.scope.includes f.1
      .ok (wanted.map fun f => (e.target.push ⟨f.1⟩, f.2))

def filesFor (s : Source) (request : LoadRequest) : Except RepositoryError (List (Path × String)) := do
  let files ← request.entries.mapM (s.filesOf request.root)
  return files.flatten

end Source

end SandboxFetch
