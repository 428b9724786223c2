/-
  SandboxFetch.Proofs.Fetch.Lasting — what a run leaves alone on its server.

  Resolving asks questions only, so the plan hangs on what lasts of a server (`asks_resolve`), and a
  load asks one (`loading_keeps`). An accept puts its source into its next state, and what lasts of it
  is the same there; so it is after the whole run (`lasting_of_run`). What a run that accepts reports,
  and the state that it leaves its source in, both come from one accept of the components of its plan
  (`run_accepts`).
-/

import SandboxFetch.Proofs.Fetch.Stages
import SandboxFetch.Proofs.Repository.Lasting

namespace SandboxFetch.Fetch

variable {m : Machine} {job : Configuration} {r : ResolvedFetch} {site site' : Site} {α τ : Type}

/-! ## Questions -/

def lasting (site : Site) : ServerVersion × List String × List Source := site.server.lasting

theorem asks_served {act : RepositoryM α} (h : Asks Repository.lasting act) : Asks lasting (served act) := by
  have onServer : Asks lasting (Site.onServer act) :=
    ⟨Site.keeps_onServer h.keeps, fun site site' same => h.answer site.server site'.server same⟩
  exact onServer.adapt _

theorem asks_configured (result : Except ConfigurationError α) : Asks lasting (configured result) := by
  cases result with
  | error e => exact .throw _
  | ok a => exact .pure a

theorem asks_report {ε : Type} (line : String) : Asks lasting (Site.report line : SiteM ε Unit) :=
  ⟨.modify fun _ => rfl, fun _ _ _ => rfl⟩

theorem asks_readReference (c : Configuration) (version : ServerVersion) (source : SourceHandle)
    (components : List Component) : Asks lasting (readReference c version source components) := by
  have one : ∀ spec, Asks lasting (readRuleFile source components spec) := by
    intro spec
    refine .bind (asks_configured _) fun ⟨name, path⟩ => ?_
    refine .bind (asks_configured _) fun owner => ?_
    cases owner with
    | none => exact .throw _
    | some owner => exact .bind (asks_served (Repository.asks_contentOf _ _ _)) fun content => .pure _
  exact .bind (asks_configured _) fun _ => .bind (.mapM one _) fun _ => .bind (asks_configured _) fun _ => .pure _

/-- The plan of a run hangs on what lasts of the server, and resolving it keeps that. -/
theorem asks_resolve (m : Machine) (job : Configuration) : Asks lasting (resolve m job) :=
  .bind (asks_configured _) fun _ =>
  .bind (asks_served Repository.asks_testConnection) fun _ =>
  .bind (asks_served (Repository.asks_resolveSource _)) fun _ =>
  .bind (asks_report _) fun _ =>
  .bind (asks_served (Repository.asks_listComponents _)) fun _ =>
  .bind (asks_readReference _ _ _ _) fun _ =>
  .bind (asks_configured _) fun _ =>
  .bind (asks_configured _) fun _ =>
  .bind (asks_configured _) fun _ => .pure _

/-! ## Emptying and loading -/

theorem emptying_keeps_server (m : Machine) (r : ResolvedFetch) : Keeps (·.server) (emptying m r) := by
  unfold emptying
  split
  · refine .bind (.modify fun _ => rfl) fun _ => .bind (fun site => by rw [destinationExists_apply]) fun found => ?_
    cases found with
    | true => exact (Site.onDisk_keeps_server _).adapt _
    | false => exact .pure _
  · exact .pure _

theorem ensureDestination_keeps_server (root : Path) : Keeps (·.server) (ensureDestination root) := by
  refine .bind (fun site => by rw [destinationExists_apply]) fun found => ?_
  cases found with
  | true => exact .pure _
  | false => exact (Site.onDisk_keeps_server _).adapt _

theorem lasting_of_emptying (done : emptying m r site = (.ok (), site')) : lasting site' = lasting site :=
  congrArg Repository.lasting ((emptying_keeps_server m r).of_eq done)

theorem load_keeps {part : Repository → τ} (h : SourceHandle) (request : LoadRequest)
    (kept : Keeps part (Repository.filesFor h request)) : Keeps (fun site => part site.server) (Site.load h request) := by
  refine .bind (Site.keeps_onServer kept) fun files => .bind (.adapt _ ?_) fun _ => .pure _
  exact fun site => congrArg part (Site.onDisk_keeps_server _ site)

/-- A load keeps of the server what asking for its files keeps. -/
theorem loading_keeps {part : Repository → τ} (m : Machine) (r : ResolvedFetch)
    (kept : Keeps part (Repository.filesFor r.source r.plan.request)) :
    Keeps (fun site => part site.server) (loading m r) := by
  refine .bind (.modify fun _ => rfl) fun _ => ?_
  refine .bind (fun site => congrArg part (ensureDestination_keeps_server _ site)) fun _ => ?_
  refine .bind (.adapt _ (load_keeps _ _ kept)) fun _ => ?_
  exact .bind (.adapt _ fun site => congrArg part (Site.onDisk_keeps_server _ site)) fun _ => .pure _

/-! ## Accepting -/

/-- An accept of the components of a plan, with what it leaves. -/
theorem accepting_taken {taken : Option AcceptOutcome} (accepts : r.configuration.acceptFirst = true)
    (done : accepting r site = (.ok taken, site')) :
    ∃ s baselineId, site.server.sourceOf r.source = .ok s ∧
      taken = some ((s.accept r.plan.ids baselineId).1.rescope r.plan.request) ∧
      site'.server.sourceOf r.source = .ok (s.accept r.plan.ids baselineId).2 ∧ site'.disk = site.disk ∧
      (site.server.DistinctWorkspaces → lasting site' = lasting site) := by
  unfold accepting at done
  rw [if_pos accepts] at done
  obtain ⟨o, accepted, rfl⟩ := map_eq_ok.1 done
  obtain ⟨server, answer, asked, rfl, rfl⟩ := accept_eq_ok.1 accepted
  obtain ⟨s, owner, rfl, next⟩ := Repository.sourceOf_of_accept asked
  exact ⟨s, _, owner, rfl, next, rfl, fun distinct => Repository.lasting_of_accept distinct asked⟩

theorem accepting_skipped {taken : Option AcceptOutcome} (skips : r.configuration.acceptFirst = false)
    (done : accepting r site = (.ok taken, site')) : taken = none ∧ site' = site := by
  unfold accepting at done
  rw [skips] at done
  cases done
  exact ⟨rfl, rfl⟩

/-- Accepting leaves the disk as it is, and what lasts of the server. -/
theorem accepting_leaves {taken : Option AcceptOutcome} (done : accepting r site = (.ok taken, site')) :
    site'.disk = site.disk ∧ (site.server.DistinctWorkspaces → lasting site' = lasting site) := by
  cases accepts : r.configuration.acceptFirst with
  | true =>
    obtain ⟨-, -, -, -, -, disk, kept⟩ := accepting_taken accepts done
    exact ⟨disk, kept⟩
  | false =>
    obtain ⟨-, rfl⟩ := accepting_skipped accepts done
    exact ⟨rfl, fun _ => rfl⟩

/-! ## Whole runs -/

/-- After a run the same lasts as before. -/
theorem lasting_of_run {out : FetchOutcome} (distinct : site.server.DistinctWorkspaces)
    (done : run m job site = (.ok out, site')) : lasting site' = lasting site := by
  obtain ⟨r, s₁, s₂, taken, s₃, files, resolved, emptied, accepted, loaded, rfl⟩ := run_eq_ok done
  have before : lasting s₁ = lasting site := (asks_resolve m job).keeps.of_eq resolved
  have middle : lasting s₂ = lasting site := (lasting_of_emptying emptied).trans before
  have kept := (accepting_leaves accepted).2 (Repository.distinctWorkspaces_of_lasting middle distinct)
  have after : lasting site' = lasting s₃ := (loading_keeps m r (Repository.asks_filesFor _ _).keeps).of_eq loaded
  exact (after.trans kept).trans middle

/-- A run that accepts reports one accept of the components of its plan into its source, and leaves the
    source as that accept does. -/
theorem run_accepts {out : FetchOutcome} (distinct : site.server.DistinctWorkspaces) (accepts : job.acceptFirst = true)
    (done : run m job site = (.ok out, site')) :
    ∃ s baselineId, site.server.sources.find? (fun s => s.kind == job.forRun.selection.kind &&
        s.name == job.forRun.selection.name) = some s ∧
      site.server.sourceOf out.resolved.source = .ok s ∧
      site'.server.sourceOf out.resolved.source = .ok (s.accept out.resolved.plan.ids baselineId).2 ∧
      out.report = ChangeReport.ofOutcome out.resolved.source.workspace
        ((s.accept out.resolved.plan.ids baselineId).1.rescope out.resolved.plan.request) job.isPersonal ∧
      lasting site' = lasting site := by
  obtain ⟨r, s₁, s₂, taken, s₃, files, resolved, emptied, accepted, loaded, rfl⟩ := run_eq_ok done
  obtain ⟨resolves, sources, -, -⟩ := resolve_eq_ok resolved
  obtain ⟨s, -, found, owner, -, -⟩ := resolves.selected distinct
  obtain ⟨disk, -, rfl⟩ := emptying_eq_ok emptied
  have on : r.configuration.acceptFirst = true := by rw [resolves.configuration, job.acceptFirst_forRun, accepts]
  obtain ⟨s', baselineId, owner', rfl, next, -, -⟩ := accepting_taken on accepted
  obtain rfl : s' = s := Except.ok.inj (owner'.symm.trans ((sourceOf_congr sources _).trans owner))
  have after : site'.server.sources = s₃.server.sources :=
    (loading_keeps m r (Repository.filesFor_keeps_sources _ _)).of_eq loaded
  have personal : r.configuration.isPersonal = job.isPersonal := by
    rw [resolves.configuration, Configuration.isPersonal, Configuration.personal_forRun, Configuration.isPersonal]
  refine ⟨s', baselineId, found, owner, (sourceOf_congr after _).trans next, ?_, lasting_of_run distinct done⟩
  show ChangeReport.ofOutcome r.source.workspace _ r.configuration.isPersonal = _
  rw [personal]
  rfl

end SandboxFetch.Fetch
