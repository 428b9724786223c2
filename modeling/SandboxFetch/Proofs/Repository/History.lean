/-
  SandboxFetch.Proofs.Repository.History — what clients ask of a server, one operation after the other.

  Any number of clients ask a server that was built from a fixture for operations, in any order and
  on any handles; some operations are made to fail on the way (`Call.failOn`). A history is the list
  of what was asked for, with the answers in the same order (`serve`). Between the operations of one
  client those of the others may stand, and an operation touches the sources in one step.

  The successful accepts into one workspace are picked out of the answers (`acceptsInto`). A server
  is `Reachable` when some history leads to it.
-/

import SandboxFetch.Proofs.Repository.Building

namespace SandboxFetch

/-! ## Operations as data -/

/-- An operation of a server, or the order to let one fail from now on. -/
inductive Call where
  | testConnection
  | resolveSource (selection : Selection)
  | listComponents (h : SourceHandle)
  | readFile (h : SourceHandle) (component : ItemId) (path : String)
  | accept (h : SourceHandle) (components : List ItemId)
  | load (h : SourceHandle) (request : LoadRequest)
  | failOn (operation : String)

inductive Reply where
  | version (v : ServerVersion)
  | source (h : SourceHandle)
  | components (l : List Component)
  | content (s : String)
  | accepted (o : AcceptOutcome)
  | loaded (o : LoadOutcome)
  | done

structure Request where
  client : Nat
  call : Call

namespace Call

def perform : Call → SiteM RepositoryError Reply
  | testConnection => .version <$> Site.onServer Repository.testConnection
  | resolveSource selection => .source <$> Site.onServer (Repository.resolveSource selection)
  | listComponents h => .components <$> Site.onServer (Repository.listComponents h)
  | readFile h component path => .content <$> Site.onServer (Repository.contentOf h component path)
  | accept h ids => .accepted <$> Site.onServer (Repository.accept h ids)
  | load h request => .loaded <$> Site.load h request
  | failOn operation => Site.onServer do
      modify (·.failOn operation)
      return .done

def isAccept : Call → Bool
  | accept .. => true
  | _ => false

/-- An operation that accepts nothing leaves all sources as they were. -/
theorem keeps_sources {call : Call} (h : call.isAccept = false) : Keeps (·.server.sources) call.perform := by
  cases call with
  | testConnection => exact .map _ (Site.keeps_onServer Repository.testConnection_keeps_sources)
  | resolveSource selection => exact .map _ (Site.keeps_onServer (Repository.resolveSource_keeps_sources selection))
  | listComponents source => exact .map _ (Site.keeps_onServer (Repository.listComponents_keeps_sources source))
  | readFile source component path =>
    exact .map _ (Site.keeps_onServer (Repository.contentOf_keeps_sources source component path))
  | accept source ids => cases h
  | load source request =>
    refine .map _ (.bind (Site.keeps_onServer (Repository.filesFor_keeps_sources source request)) fun files => ?_)
    refine .bind (.adapt _ fun site => ?_) fun _ => .pure _
    exact congrArg Repository.sources (Site.onDisk_keeps_server (Disk.writeAll files) site)
  | failOn operation =>
    have frame : Keeps Repository.sources (do
        modify (Repository.failOn · operation)
        return Reply.done : RepositoryM Reply) := .bind (.modify fun _ => rfl) fun _ => .pure _
    exact Site.keeps_onServer frame

end Call

/-! ## Histories -/

/-- Serves requests in order; each answer stands beside its request. -/
def serve (site : Site) : List Request → List (Request × Except RepositoryError Reply) × Site
  | [] => ([], site)
  | q :: rest =>
    let answer := q.call.perform site
    let later := serve answer.2 rest
    ((q, answer.1) :: later.1, later.2)

def Repository.Reachable (r : Repository) : Prop :=
  ∃ now ids fixture start disk history, Repository.ofFixture now ids fixture = .ok start ∧
    r = (serve { server := start, disk } history).2.server

/-- An accept that succeeded: the components it was asked for, and its outcome. -/
structure AcceptRecord where
  components : List ItemId
  outcome : AcceptOutcome

def AcceptRecord.of? (workspace : ItemId) : Request × Except RepositoryError Reply → Option AcceptRecord
  | (⟨_, .accept h ids⟩, .ok (.accepted o)) => if h.workspace = workspace then some ⟨ids, o⟩ else none
  | _ => none

def acceptsInto (workspace : ItemId) (log : List (Request × Except RepositoryError Reply)) : List AcceptRecord :=
  log.filterMap (AcceptRecord.of? workspace)

theorem acceptsInto_append (workspace : ItemId) (xs ys : List (Request × Except RepositoryError Reply)) :
    acceptsInto workspace (xs ++ ys) = acceptsInto workspace xs ++ acceptsInto workspace ys :=
  List.filterMap_append

end SandboxFetch
