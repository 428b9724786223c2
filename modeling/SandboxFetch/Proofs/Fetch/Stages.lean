/-
  SandboxFetch.Proofs.Fetch.Stages — a run, stage by stage.

  A run resolves, empties, accepts and loads, in this order, where the second and third may do
  nothing (`run_eq`). Resolving leaves disk and sources as they are, and what it resolves to belongs
  to one source of the server (`Resolves`). Emptying and loading change no source, and accepting
  changes nothing on the disk. A run that succeeded went through all its stages, each begun on the
  site that the one before left (`run_eq_ok`); and a stage succeeds just when it can do what it does
  (`emptying_eq_ok`, and `emptying_of_emptied` where the machine refuses nothing; `accept_eq_ok`,
  `loading_iff`).
-/

import SandboxFetch.Fetch.Running
import SandboxFetch.Proofs.Disk.Removing
import SandboxFetch.Proofs.Disk.Writing
import SandboxFetch.Proofs.Repository.Ledger

namespace SandboxFetch

/-- Nothing is refused in the directory that a path leads to. -/
def Machine.Spares (m : Machine) (root : Path) (disk : Disk) : Prop :=
  ∀ top, disk.place? root = some top → m.hindrances.Spares top

namespace Fetch

variable {α : Type}

/-! ## The stages -/

def emptying (m : Machine) (r : ResolvedFetch) : FetchM Unit :=
  if r.configuration.deleteFirst then do
    Site.report ("Deleting contents of " ++ r.plan.root.text)
    clearDestination r.plan.root m.hindrances
  else pure ()

def accepting (r : ResolvedFetch) : FetchM (Option AcceptOutcome) :=
  if r.configuration.acceptFirst then some <$> accept r else pure none

def loading (m : Machine) (r : ResolvedFetch) : FetchM (List Path) := do
  Site.report ("Loading " ++ Text.writeNat r.plan.entries.length ++ " components into " ++ r.plan.root.text)
  ensureDestination r.plan.root
  let loaded ← (Site.load r.source r.plan.request).adapt .repository
  writeMetadata r m.now
  return loaded.files

theorem run_eq (m : Machine) (job : Configuration) : run m job = (do
    let r ← resolve m job
    emptying m r
    let accepted ← accepting r
    let files ← loading m r
    return conclude r files accepted) := by
  unfold run
  congr 1
  funext r
  unfold emptying accepting loading
  cases r.configuration.deleteFirst <;> cases r.configuration.acceptFirst <;> simp

/-- A run that succeeded went through all its stages. -/
theorem run_eq_ok {m : Machine} {job : Configuration} {site site' : Site} {out : FetchOutcome}
    (done : run m job site = (.ok out, site')) :
    ∃ r s₁ s₂ accepted s₃ files, resolve m job site = (.ok r, s₁) ∧ emptying m r s₁ = (.ok (), s₂) ∧
      accepting r s₂ = (.ok accepted, s₃) ∧ loading m r s₃ = (.ok files, site') ∧
      out = conclude r files accepted := by
  rw [run_eq] at done
  obtain ⟨r, s₁, resolved, done⟩ := bind_eq_ok.1 done
  obtain ⟨⟨⟩, s₂, emptied, done⟩ := bind_eq_ok.1 done
  obtain ⟨accepted, s₃, taken, done⟩ := bind_eq_ok.1 done
  obtain ⟨files, s₄, loaded, done⟩ := bind_eq_ok.1 done
  cases done
  exact ⟨r, s₁, s₂, accepted, s₃, files, resolved, emptied, taken, loaded, rfl⟩

/-! ## Parts of a fetch -/

theorem configured_eq_ok {result : Except ConfigurationError α} {site site' : Site} {a : α} :
    configured result site = (.ok a, site') ↔ result = .ok a ∧ site' = site := by
  cases result with
  | error e =>
    constructor
    · intro h
      cases h
    · rintro ⟨h, -⟩
      cases h
  | ok b =>
    constructor
    · intro h
      cases h
      exact ⟨rfl, rfl⟩
    · rintro ⟨h, rfl⟩
      cases h
      rfl

theorem configured_keeps {τ : Type} (part : Site → τ) (result : Except ConfigurationError α) :
    Keeps part (configured result) := by
  cases result with
  | error e => exact .throw _
  | ok a => exact .pure a

theorem served_eq_ok {act : RepositoryM α} {site site' : Site} {a : α} :
    served act site = (.ok a, site') ↔
      ∃ server, act site.server = (.ok a, server) ∧ site' = { site with server } := by
  unfold served
  rw [adapt_eq_ok]
  exact Site.onServer_eq

theorem served_eq_error {act : RepositoryM α} {site site' : Site} {e : FetchError} :
    served act site = (.error e, site') ↔ ∃ fault server, act site.server = (.error fault, server) ∧
      e = .repository fault ∧ site' = { site with server } := by
  unfold served
  rw [adapt_eq_error]
  constructor
  · rintro ⟨fault, failed, rfl⟩
    obtain ⟨server, answer, rfl⟩ := Site.onServer_eq.1 failed
    exact ⟨fault, server, answer, rfl, rfl⟩
  · rintro ⟨fault, server, answer, rfl, rfl⟩
    exact ⟨fault, Site.onServer_eq.2 ⟨server, answer, rfl⟩, rfl⟩

/-- Sources, disk and build log of a site, which an operation that only asks leaves alone. -/
def standing (site : Site) : List Source × Disk × List String := (site.server.sources, site.disk, site.progress)

theorem served_keeps_standing {act : RepositoryM α} (h : Keeps (·.sources) act) : Keeps standing (served act) := by
  intro site
  have sources : (served act site).2.server.sources = site.server.sources := h site.server
  exact congrArg (·, site.disk, site.progress) sources

/-- Whether the destination is there is told without a change. -/
theorem destinationExists_apply (root : Path) (site : Site) : destinationExists root site = (
    match site.disk.status root with
    | .ok .directory => .ok true
    | .ok .absent => .ok false
    | .ok .file => .error (.environment (.notDirectory root))
    | .error fault => .error (.environment (.deleteFailed root fault)), site) := by
  unfold destinationExists
  rw [get_bind_apply]
  rcases site.disk.status root with fault | status
  · rfl
  · cases status <;> rfl

theorem destinationExists_eq_ok {root : Path} {site site' : Site} {found : Bool} :
    destinationExists root site = (.ok found, site') ↔
      site' = site ∧ site.disk.status root = .ok (if found then .directory else .absent) := by
  rw [destinationExists_apply, Prod.mk.injEq, and_comm, eq_comm (a := site)]
  refine and_congr_right fun _ => ?_
  rcases site.disk.status root with fault | status
  · simp
  · cases status <;> cases found <;> simp

/-! ## Resolving -/

/-- The plan, and all that led to it, belongs to a server as it stands. -/
structure Resolves (m : Machine) (job : Configuration) (server : Repository) (r : ResolvedFetch) : Prop where
  configuration : r.configuration = job.forRun
  source : ∃ s, server.sources.find? (fun s => s.kind == job.forRun.selection.kind && s.name == job.forRun.selection.name) =
      some s ∧ r.source = ⟨job.forRun.selection, s.workspace, s.snapshot⟩
  components : ∃ s, server.sourceOf r.source = .ok s ∧ r.components = s.components.map (·.component)
  set : ∃ rules, ruleTable r.reference r.components = .ok rules ∧
    ComponentSet.resolve r.components job.forRun rules = .ok r.set
  plan : LoadPlan.layOut r.set job.forRun m.workingDir m.host = .ok r.plan

/-- Reading rule files keeps what reading a file of the source keeps. -/
theorem readReference_keeps {τ : Type} {part : Site → τ} {source : SourceHandle}
    (h : ∀ component path, Keeps part (served (Repository.contentOf source component path))) (c : Configuration)
    (version : ServerVersion) (components : List Component) :
    Keeps part (readReference c version source components) := by
  have one : ∀ spec, Keeps part (readRuleFile source components spec) := by
    intro spec
    refine .bind (configured_keeps _ _) fun ⟨name, path⟩ => ?_
    refine .bind (configured_keeps _ _) fun owner => ?_
    cases owner with
    | none => exact .throw _
    | some owner => exact .bind (h _ _) fun content => .pure _
  exact .bind (configured_keeps _ _) fun _ => .bind (.mapM one _) fun _ =>
    .bind (configured_keeps _ _) fun _ => .pure _

theorem sourceOf_congr {r r' : Repository} (same : r'.sources = r.sources) (h : SourceHandle) :
    r'.sourceOf h = r.sourceOf h := by
  unfold Repository.sourceOf
  rw [same]

theorem resolveSource_eq_ok {selection : Selection} {r r' : Repository} {h : SourceHandle}
    (done : Repository.resolveSource selection r = (.ok h, r')) :
    ∃ s, r.sources.find? (fun s => s.kind == selection.kind && s.name == selection.name) = some s ∧
      h = ⟨selection, s.workspace, s.snapshot⟩ := by
  unfold Repository.resolveSource at done
  obtain ⟨⟨⟩, mid, entered, done⟩ := bind_eq_ok.1 done
  obtain rfl := Repository.enter_eq_ok entered
  rw [get_bind_apply, Repository.logged_sources] at done
  cases found : r.sources.find? fun s => s.kind == selection.kind && s.name == selection.name with
  | none =>
    rw [found] at done
    cases done
  | some s =>
    rw [found] at done
    cases done
    exact ⟨s, rfl, rfl⟩

theorem listComponents_eq_ok {h : SourceHandle} {r r' : Repository} {components : List Component}
    (done : Repository.listComponents h r = (.ok components, r')) :
    ∃ s, r.sourceOf h = .ok s ∧ components = s.components.map (·.component) := by
  unfold Repository.listComponents at done
  obtain ⟨⟨⟩, mid, entered, done⟩ := bind_eq_ok.1 done
  obtain rfl := Repository.enter_eq_ok entered
  rw [get_bind_apply] at done
  obtain ⟨s, mid, found, done⟩ := bind_eq_ok.1 done
  rw [lift_apply, Repository.sourceOf_logged] at found
  cases done
  exact ⟨s, (Prod.mk.inj found).1, rfl⟩

theorem resolve_eq_ok {m : Machine} {job : Configuration} {site site' : Site} {r : ResolvedFetch}
    (done : resolve m job site = (.ok r, site')) :
    Resolves m job site.server r ∧ site'.server.sources = site.server.sources ∧ site'.disk = site.disk ∧
      site'.progress = site.progress ++
        ["Resolved " ++ job.forRun.selection.text ++ " to workspace " ++ r.source.workspace] := by
  unfold resolve at done
  obtain ⟨root, s₁, checked, done⟩ := bind_eq_ok.1 done
  obtain ⟨version, s₂, tested, done⟩ := bind_eq_ok.1 done
  obtain ⟨source, s₃, found, done⟩ := bind_eq_ok.1 done
  obtain ⟨⟨⟩, s₄, told, done⟩ := bind_eq_ok.1 done
  obtain ⟨components, s₅, listed, done⟩ := bind_eq_ok.1 done
  obtain ⟨reference, s₆, read, done⟩ := bind_eq_ok.1 done
  obtain ⟨rules, s₇, ruled, done⟩ := bind_eq_ok.1 done
  obtain ⟨set, s₈, formed, done⟩ := bind_eq_ok.1 done
  obtain ⟨plan, s₉, laid, done⟩ := bind_eq_ok.1 done
  cases done
  obtain ⟨-, same₁⟩ := configured_eq_ok.1 checked
  obtain ⟨tableOk, same₇⟩ := configured_eq_ok.1 ruled
  obtain ⟨setOk, same₈⟩ := configured_eq_ok.1 formed
  obtain ⟨planOk, same₉⟩ := configured_eq_ok.1 laid
  obtain ⟨server₃, resolved, -⟩ := served_eq_ok.1 found
  obtain ⟨server₅, component, -⟩ := served_eq_ok.1 listed
  obtain ⟨s, selected, rfl⟩ := resolveSource_eq_ok resolved
  obtain ⟨t, owner, rfl⟩ := listComponents_eq_ok component
  subst same₁ same₇ same₈ same₉
  -- each call only asks, so sources, disk and build log stay as they are
  have kept₂ := (served_keeps_standing Repository.testConnection_keeps_sources).of_eq tested
  have kept₃ := (served_keeps_standing (Repository.resolveSource_keeps_sources _)).of_eq found
  have kept₅ := (served_keeps_standing (Repository.listComponents_keeps_sources _)).of_eq listed
  have kept₆ := (readReference_keeps
    (fun _ _ => served_keeps_standing (Repository.contentOf_keeps_sources _ _ _)) _ _ _).of_eq read
  cases told
  have before : standing s₃ = standing s₁ := kept₃.trans kept₂
  have after : standing site' = standing _ := kept₆.trans kept₅
  simp only [standing, Prod.mk.injEq] at before after kept₂
  obtain ⟨sources, disk, progress⟩ := before
  obtain ⟨sources', disk', progress'⟩ := after
  refine ⟨⟨rfl, ⟨s, ?_, rfl⟩, ⟨t, ?_, rfl⟩, ⟨rules, tableOk, setOk⟩, planOk⟩, ?_, ?_, ?_⟩
  · rw [← kept₂.1]
    exact selected
  · rw [← owner]
    exact sourceOf_congr sources.symm _
  · rw [sources', sources]
  · rw [disk', disk]
  · rw [progress', progress]

/-- When workspaces name sources, the source that was resolved is the one that is asked from then on. -/
theorem Resolves.selected {m : Machine} {job : Configuration} {server : Repository} {r : ResolvedFetch}
    (h : Resolves m job server r) (distinct : server.DistinctWorkspaces) :
    ∃ s ∈ server.sources, server.sources.find?
        (fun s => s.kind == job.forRun.selection.kind && s.name == job.forRun.selection.name) = some s ∧
      server.sourceOf r.source = .ok s ∧ r.source.workspace = s.workspace ∧
      r.components = s.components.map (·.component) := by
  obtain ⟨s, found, source⟩ := h.source
  obtain ⟨t, owner, components⟩ := h.components
  have member := List.mem_of_find?_eq_some found
  obtain ⟨member', workspace⟩ := Repository.sourceOf_eq_ok owner
  have named : r.source.workspace = s.workspace := by rw [source]
  obtain rfl := distinct.eq_of_workspace member' member (workspace.trans named)
  exact ⟨t, member, found, owner, named, components⟩

/-! ## Emptying -/

/-- A disk whose destination is empty or not there, as emptying leaves it. -/
def Emptied (root : Path) (disk disk' : Disk) : Prop :=
  (disk.status root = .ok .directory ∧ disk' = disk.clear root) ∨ (disk.status root = .ok .absent ∧ disk' = disk)

theorem place?_of_directory {root : Path} {disk : Disk} (status : disk.status root = .ok .directory) :
    ∃ top, disk.place? root = some top ∧ disk.tree.at? top = some .directory :=
  Disk.isDirectory_iff.1 (by unfold Disk.isDirectory; rw [status])

section Clearing

variable {h : Hindrances} {root : Path} {site site' : Site} {disk : Disk}

theorem clearDestination_eq_ok (done : clearDestination root h site = (.ok (), site')) :
    ∃ disk, site' = { site with disk } ∧ Emptied root site.disk disk := by
  obtain ⟨found, mid, looked, cleared⟩ := bind_eq_ok.1 done
  obtain ⟨rfl, status⟩ := destinationExists_eq_ok.1 looked
  cases found with
  | true =>
    obtain ⟨disk, removed, rfl⟩ := Site.onDisk_eq.1 (adapt_eq_ok.1 cleared)
    obtain ⟨top, leads, directory⟩ := place?_of_directory status
    exact ⟨_, rfl, .inl ⟨status, Disk.eq_clear_of_removeContents leads directory removed⟩⟩
  | false =>
    cases cleared
    exact ⟨_, rfl, .inr ⟨status, rfl⟩⟩

theorem clearDestination_of_emptied (spares : ∀ top, site.disk.place? root = some top → h.Spares top)
    (emptied : Emptied root site.disk disk) : clearDestination root h site = (.ok (), { site with disk }) := by
  rcases emptied with ⟨status, rfl⟩ | ⟨status, rfl⟩
  · obtain ⟨top, leads, directory⟩ := place?_of_directory status
    refine bind_eq_ok.2 ⟨true, site, destinationExists_eq_ok.2 ⟨rfl, status⟩, ?_⟩
    exact adapt_eq_ok.2 (Site.onDisk_eq.2 ⟨_, Disk.removeContents_ok leads directory (spares top leads), rfl⟩)
  · exact bind_eq_ok.2 ⟨false, site, destinationExists_eq_ok.2 ⟨rfl, status⟩, rfl⟩

end Clearing

theorem emptying_eq_ok {m : Machine} {r : ResolvedFetch} {site site' : Site}
    (done : emptying m r site = (.ok (), site')) :
    ∃ disk, (if r.configuration.deleteFirst then Emptied r.plan.root site.disk disk else disk = site.disk) ∧
      site' = { site with
        disk
        progress := site.progress ++
          if r.configuration.deleteFirst then ["Deleting contents of " ++ r.plan.root.text] else [] } := by
  unfold emptying at done
  cases deletes : r.configuration.deleteFirst with
  | false =>
    rw [deletes] at done
    cases done
    exact ⟨site.disk, rfl, by simp⟩
  | true =>
    rw [deletes, if_pos rfl] at done
    obtain ⟨⟨⟩, mid, told, cleared⟩ := bind_eq_ok.1 done
    cases told
    obtain ⟨disk, rfl, emptied⟩ := clearDestination_eq_ok cleared
    exact ⟨disk, emptied, rfl⟩

theorem emptying_of_emptied {m : Machine} {r : ResolvedFetch} {site : Site} {disk : Disk}
    (spares : r.configuration.deleteFirst = true → m.Spares r.plan.root site.disk)
    (emptied : if r.configuration.deleteFirst then Emptied r.plan.root site.disk disk else disk = site.disk) :
    ∃ site', emptying m r site = (.ok (), site') ∧ site'.disk = disk := by
  unfold emptying
  cases deletes : r.configuration.deleteFirst with
  | false =>
    rw [deletes] at emptied
    exact ⟨site, rfl, emptied.symm⟩
  | true =>
    rw [deletes, if_pos rfl] at emptied
    exact ⟨_, bind_eq_ok.2 ⟨(), _, rfl, clearDestination_of_emptied (spares deletes) emptied⟩, rfl⟩

/-! ## Accepting -/

def acceptLines (workspace : ItemId) (o : AcceptOutcome) : List String :=
  ["Accepting changes into workspace " ++ workspace,
    "Accepted " ++ Text.writeNat o.accepted.length ++ " change sets, discarded " ++ Text.writeNat o.discarded.length]

theorem accept_eq_ok {r : ResolvedFetch} {site site' : Site} {o : AcceptOutcome} :
    accept r site = (.ok o, site') ↔
      ∃ server taken, Repository.accept r.source r.plan.ids site.server = (.ok taken, server) ∧
        o = taken.rescope r.plan.request ∧
        site' = { site with server, progress := site.progress ++ acceptLines r.source.workspace o } := by
  unfold accept
  constructor
  · intro done
    obtain ⟨⟨⟩, s₁, told, done⟩ := bind_eq_ok.1 done
    obtain ⟨taken, s₂, accepted, done⟩ := bind_eq_ok.1 done
    obtain ⟨⟨⟩, s₃, counted, done⟩ := bind_eq_ok.1 done
    cases done
    cases told
    cases counted
    obtain ⟨server, asked, rfl⟩ := served_eq_ok.1 accepted
    exact ⟨server, taken, asked, rfl, by simp [acceptLines]⟩
  · rintro ⟨server, taken, asked, rfl, rfl⟩
    refine bind_eq_ok.2 ⟨(), _, rfl, bind_eq_ok.2 ⟨taken, _, served_eq_ok.2 ⟨server, asked, rfl⟩,
      bind_eq_ok.2 ⟨(), _, rfl, ?_⟩⟩⟩
    simp only [acceptLines, List.append_assoc]
    rfl

/-! ## Loading -/

def metadataText (r : ResolvedFetch) (now : Timestamp) : String :=
  let metadata : SandboxMetadata := ⟨r.source.workspace, r.plan.digest, r.plan.names, now⟩
  Json.toText Json.pretty metadata.toJson

def Ensured (root : Path) (disk disk' : Disk) : Prop :=
  (disk.status root = .ok .directory ∧ disk' = disk) ∨
    (disk.status root = .ok .absent ∧ disk.makeDirectories root = (.ok (), disk'))

theorem ensureDestination_eq_ok {root : Path} {site site' : Site} :
    ensureDestination root site = (.ok (), site') ↔ ∃ disk, site' = { site with disk } ∧ Ensured root site.disk disk := by
  unfold ensureDestination
  rw [bind_eq_ok]
  constructor
  · rintro ⟨found, mid, looked, made⟩
    obtain ⟨rfl, status⟩ := destinationExists_eq_ok.1 looked
    cases found with
    | true =>
      cases made
      exact ⟨_, rfl, .inl ⟨status, rfl⟩⟩
    | false =>
      obtain ⟨disk, chain, rfl⟩ := Site.onDisk_eq.1 (adapt_eq_ok.1 made)
      exact ⟨disk, rfl, .inr ⟨status, chain⟩⟩
  · rintro ⟨disk, rfl, ⟨status, rfl⟩ | ⟨status, made⟩⟩
    · exact ⟨true, site, destinationExists_eq_ok.2 ⟨rfl, status⟩, rfl⟩
    · exact ⟨false, site, destinationExists_eq_ok.2 ⟨rfl, status⟩,
        adapt_eq_ok.2 (Site.onDisk_eq.2 ⟨disk, made, rfl⟩)⟩

theorem filesFor_eq_ok {h : SourceHandle} {request : LoadRequest} {r r' : Repository} {files : List (Path × String)}
    (done : Repository.filesFor h request r = (.ok files, r')) :
    ∃ s, r.sourceOf h = .ok s ∧ s.filesFor request = .ok files := by
  unfold Repository.filesFor at done
  obtain ⟨⟨⟩, mid, entered, done⟩ := bind_eq_ok.1 done
  obtain rfl := Repository.enter_eq_ok entered
  rw [get_bind_apply] at done
  obtain ⟨s, mid, found, listed⟩ := bind_eq_ok.1 done
  rw [lift_apply, Repository.sourceOf_logged] at found
  rw [lift_apply] at listed
  exact ⟨s, (Prod.mk.inj found).1, (Prod.mk.inj listed).1⟩

/-- A load writes what the server gives out for the plan, and then the metadata. -/
theorem loading_iff {m : Machine} {r : ResolvedFetch} {site site' : Site} {paths : List Path} :
    loading m r site = (.ok paths, site') ↔ ∃ files server disk₁ disk₂ disk₃,
      Repository.filesFor r.source r.plan.request site.server = (.ok files, server) ∧
      Ensured r.plan.root site.disk disk₁ ∧ Disk.writeAll files disk₁ = (.ok (), disk₂) ∧
      disk₂.write (r.plan.root.push metadataName) (metadataText r m.now) = .ok disk₃ ∧ paths = files.map (·.1) ∧
      site' = ⟨server, disk₃, site.progress ++
        ["Loading " ++ Text.writeNat r.plan.entries.length ++ " components into " ++ r.plan.root.text]⟩ := by
  unfold loading
  constructor
  · intro done
    obtain ⟨⟨⟩, s₁, told, done⟩ := bind_eq_ok.1 done
    obtain ⟨⟨⟩, s₂, ensured, done⟩ := bind_eq_ok.1 done
    obtain ⟨loaded, s₃, load, done⟩ := bind_eq_ok.1 done
    obtain ⟨⟨⟩, s₄, metadata, done⟩ := bind_eq_ok.1 done
    cases done
    cases told
    obtain ⟨disk₁, rfl, there⟩ := ensureDestination_eq_ok.1 ensured
    unfold Site.load at load
    obtain ⟨files, s₅, asked, writing⟩ := bind_eq_ok.1 (adapt_eq_ok.1 load)
    obtain ⟨⟨⟩, s₆, written, answered⟩ := bind_eq_ok.1 writing
    cases answered
    obtain ⟨server, listed, rfl⟩ := Site.onServer_eq.1 asked
    obtain ⟨disk₂, wrote, rfl⟩ := Site.onDisk_eq.1 (adapt_eq_ok.1 written)
    unfold writeMetadata at metadata
    obtain ⟨disk₃, attempted, rfl⟩ := Site.onDisk_eq.1 (adapt_eq_ok.1 metadata)
    exact ⟨files, server, disk₁, disk₂, disk₃, listed, there, wrote, Disk.attempt_eq_ok.1 attempted, rfl, rfl⟩
  · rintro ⟨files, server, disk₁, disk₂, disk₃, listed, there, wrote, metadata, rfl, rfl⟩
    refine bind_eq_ok.2 ⟨(), _, rfl, bind_eq_ok.2 ⟨(), _, ensureDestination_eq_ok.2 ⟨disk₁, rfl, there⟩, ?_⟩⟩
    have load : Site.load r.source r.plan.request { site with
          disk := disk₁
          progress := site.progress ++
            ["Loading " ++ Text.writeNat r.plan.entries.length ++ " components into " ++ r.plan.root.text] } =
        (.ok ⟨files.map (·.1)⟩, ⟨server, disk₂, site.progress ++
          ["Loading " ++ Text.writeNat r.plan.entries.length ++ " components into " ++ r.plan.root.text]⟩) :=
      bind_eq_ok.2 ⟨files, _, Site.onServer_eq.2 ⟨server, listed, rfl⟩,
        bind_eq_ok.2 ⟨(), _, adapt_eq_ok.2 (Site.onDisk_eq.2 ⟨disk₂, wrote, rfl⟩), rfl⟩⟩
    refine bind_eq_ok.2 ⟨_, _, adapt_eq_ok.2 load, bind_eq_ok.2 ⟨(), _, adapt_eq_ok.2 (Site.onDisk_eq.2
      ⟨disk₃, Disk.attempt_eq_ok.2 metadata, rfl⟩), rfl⟩⟩

/-- What a load that succeeded wrote: the files that the source has for the plan, and the metadata. -/
theorem loading_eq_ok {m : Machine} {r : ResolvedFetch} {site site' : Site} {paths : List Path}
    (done : loading m r site = (.ok paths, site')) :
    ∃ s files disk₁ disk₂ disk₃ server, site.server.sourceOf r.source = .ok s ∧
      s.filesFor r.plan.request = .ok files ∧ Ensured r.plan.root site.disk disk₁ ∧
      Disk.writeAll files disk₁ = (.ok (), disk₂) ∧
      disk₂.write (r.plan.root.push metadataName) (metadataText r m.now) = .ok disk₃ ∧ paths = files.map (·.1) ∧
      site' = ⟨server, disk₃, site.progress ++
        ["Loading " ++ Text.writeNat r.plan.entries.length ++ " components into " ++ r.plan.root.text]⟩ := by
  obtain ⟨files, server, disk₁, disk₂, disk₃, listed, there, wrote, metadata, named, after⟩ := loading_iff.1 done
  obtain ⟨s, found, chosen⟩ := filesFor_eq_ok listed
  exact ⟨s, files, disk₁, disk₂, disk₃, server, found, chosen, there, wrote, metadata, named, after⟩

end Fetch

end SandboxFetch
