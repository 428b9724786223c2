/-
  SandboxFetch.Proofs.Fetch.Personal — a personal build keeps to itself.

  A build that a developer asks for reports nothing of what its accept took, and hands on no baseline
  that its accept made, only the values that came with it and the computed ones they leave
  (`KeepsPrivate`). Whatever a run comes to, it changes one source at most, the one that its
  configuration selects (`run_changesOnly`), and it asks for no other (`keepsTo_run`); so with a
  workspace of its own, a personal build leaves all other sources alone. With rule files of its own
  besides, nothing of the job's selection and rule files is left in the run (`run_congr`).
-/

import SandboxFetch.Proofs.Fetch.Order
import SandboxFetch.Proofs.Properties

namespace SandboxFetch

/-! ## One source at most -/

/-- The sources of a server are at their places as they were, but for one of them. -/
structure ChangesOnly (which : Option Source) (before after : List Source) : Prop where
  length : after.length = before.length
  others : ∀ (i : Nat) (t : Source), before[i]? = some t → after[i]? = some t ∨ which = some t

namespace ChangesOnly

variable {which : Option Source} {before after : List Source}

theorem refl (which : Option Source) (l : List Source) : ChangesOnly which l l := ⟨rfl, fun _ _ there => .inl there⟩

theorem of_eq (same : after = before) : ChangesOnly which before after := by
  subst same
  exact refl _ _

/-- An update of a source changes the source only, when workspaces name sources. -/
theorem update {r : Repository} {s next : Source} (distinct : r.DistinctWorkspaces) (member : s ∈ r.sources) :
    ChangesOnly (some s) r.sources (r.update s.workspace next).sources := by
  unfold Repository.update
  refine ⟨List.length_map _, fun i t there => ?_⟩
  rw [List.getElem?_map, there, Option.map_some]
  by_cases same : t.workspace = s.workspace
  · right
    rw [distinct.eq_of_workspace (List.mem_of_getElem? there) member same]
  · left
    rw [if_neg (by simpa using same)]

end ChangesOnly

namespace Fetch

variable {m : Machine} {job : Configuration} {site site' : Site} {r : ResolvedFetch}

theorem fromConfiguration_of_resolve (resolved : resolve m job site = (.ok r, site')) :
    FromConfiguration r.configuration r := by
  obtain ⟨_, _, _, all⟩ := keepsTo_resolve m job site
  rw [resolved] at all
  have belongs := (all r rfl).2
  rwa [← belongs.configuration] at belongs

theorem accepting_changesOnly {s : Source} (distinct : site.server.DistinctWorkspaces) (member : s ∈ site.server.sources)
    (workspace : r.source.workspace = s.workspace) (belongs : FromConfiguration r.configuration r) :
    ChangesOnly (some s) site.server.sources (accepting r site).2.server.sources := by
  rcases done : accepting r site with ⟨e | taken, mid⟩
  · exact .of_eq (accepting_eq_error belongs done).1.sources
  · cases accepts : r.configuration.acceptFirst with
    | false =>
      obtain ⟨-, rfl⟩ := accepting_skipped accepts done
      exact .refl _ _
    | true =>
      unfold accepting at done
      rw [if_pos accepts] at done
      obtain ⟨o, accepted, rfl⟩ := map_eq_ok.1 done
      obtain ⟨server, answer, asked, -, rfl⟩ := accept_eq_ok.1 accepted
      obtain ⟨t, -, -, sources⟩ := Repository.accept_eq_ok asked
      show ChangesOnly _ _ server.sources
      rw [sources, workspace]
      exact .update distinct member

/-- Whatever a run comes to, it leaves all sources alone but the one that its configuration selects. -/
theorem run_changesOnly (m : Machine) (job : Configuration) (distinct : site.server.DistinctWorkspaces) :
    ChangesOnly (site.server.sources.find? fun s =>
      s.kind == job.forRun.selection.kind && s.name == job.forRun.selection.name)
      site.server.sources (run m job site).2.server.sources := by
  rcases resolved : resolve m job site with ⟨e | r, s₁⟩
  · rw [run_eq, bind_of_error resolved]
    exact .of_eq (Prod.mk.inj ((resolve_keeps m job).of_eq resolved)).1
  obtain ⟨resolves, sources, -, -⟩ := resolve_eq_ok resolved
  obtain ⟨s, found, source⟩ := resolves.source
  rw [found]
  rcases emptied : emptying m r s₁ with ⟨e | ⟨⟨⟩⟩, s₂⟩ <;> have server := (emptying_keeps_server m r).of_eq emptied
  · rw [run_eq, bind_of_ok resolved, bind_of_error emptied]
    exact .of_eq (by rw [server, sources])
  have still : s₂.server.sources = site.server.sources := by rw [server, sources]
  have accepted : ChangesOnly (some s) s₂.server.sources (accepting r s₂).2.server.sources := by
    refine accepting_changesOnly ?_ ?_ (by rw [source]) (fromConfiguration_of_resolve resolved)
    · unfold Repository.DistinctWorkspaces
      rwa [still]
    · rw [still]
      exact List.mem_of_find?_eq_some found
  rw [still] at accepted
  rcases taken : accepting r s₂ with ⟨e | taken?, s₃⟩ <;> rw [taken] at accepted
  · rw [run_eq, bind_of_ok resolved, bind_of_ok emptied, bind_of_error taken]
    exact accepted
  have loaded : (run m job site).2.server.sources = s₃.server.sources := by
    rw [run_eq, bind_of_ok resolved, bind_of_ok emptied, bind_of_ok taken]
    exact Keeps.bind (loading_keeps m r (Repository.filesFor_keeps_sources _ _)) (fun _ => .pure _) s₃
  rw [loaded]
  exact accepted

/-! ## Calls -/

/-- All calls of a run but the first one name what its configuration selects. -/
theorem script_eq (c : Configuration) : ∃ rest, script c = (.testConnection, "server") :: rest ∧
    (∀ call ∈ rest, call.2 = c.selection.name) ∧ (script c).any (·.1 == .accept) = c.acceptFirst := by
  refine ⟨_, rfl, ?_, ?_⟩
  · intro call member
    unfold acceptingScript at member
    cases c.acceptFirst <;> simp at member <;> grind
  · unfold script resolvingScript acceptingScript
    cases c.acceptFirst <;> simp

/-! ## What is told -/

/-- A personal build tells nothing of what was accepted, and no baseline but that of its source. -/
structure KeepsPrivate (personal : PersonalBuild) (s : Source) (accepts : Bool) (out : FetchOutcome) : Prop where
  report : out.report = ChangeReport.empty s.workspace true
  values : ∀ k v, personal.properties.get? k = some v → out.properties.get? k = some v
  count : personal.properties.get? "team_scm_changesAccepted" = none →
    out.properties.get? "team_scm_changesAccepted" = if accepts then some "0" else none
  snapshot : personal.properties.get? "team_scm_snapshotUUID" = none →
    out.properties.get? "team_scm_snapshotUUID" = s.snapshot

theorem conclude_keepsPrivate {personal : PersonalBuild} {s : Source} {files : List Path} {taken : Option AcceptOutcome}
    (asked : r.configuration.personal = some personal) (source : r.source = ⟨r.source.selection, s.workspace, s.snapshot⟩) :
    KeepsPrivate personal s taken.isSome (conclude r files taken) := by
  have personally : r.configuration.isPersonal = true := by
    rw [Configuration.isPersonal, asked]
    rfl
  have report : (conclude r files taken).report = ChangeReport.empty s.workspace true := by
    show ChangeReport.ofOutcome r.source.workspace _ r.configuration.isPersonal = _
    rw [personally, source]
    rfl
  have found : ∀ k, (conclude r files taken).properties.get? k = (personal.properties.get? k).or
      ((Dict.ofList (Properties.computed {
        configuration := r.configuration
        source := r.source
        reference := r.reference
        set := r.set
        accepted := taken.map fun _ => 0
        baseline := none })).get? k) := by
    intro k
    have none : (conclude r files taken).report.acceptedCount = 0 := by
      rw [report]
      rfl
    unfold conclude at none ⊢
    dsimp only at none ⊢
    rw [Properties.get?_compute, asked, none, personally]
    rfl
  refine ⟨report, fun k v value => ?_, fun free => ?_, fun free => ?_⟩
  · rw [found, value]
    rfl
  · rw [found, free, Properties.get?_computed_changesAccepted]
    have zero : Text.writeNat 0 = "0" := by decide
    cases taken with
    | none => rfl
    | some o => exact congrArg some zero
  · rw [found, free, Properties.get?_computed_snapshot, source]
    rfl

/-! ## What counts -/

/-- A run depends on a configuration by what `forRun` makes of it. -/
theorem run_congr {job' : Configuration} (same : job'.forRun = job.forRun) (m : Machine) : run m job' = run m job := by
  unfold run resolve
  rw [same]

/-- When a personal build brings workspace and rule files along, those of the job do not count. -/
theorem forRun_of_overrides {personal : PersonalBuild} (asked : job.personal = some personal)
    (workspace : personal.workspace.isSome) (rules : personal.ruleFiles.isSome) (selection : Selection)
    (ruleFiles : List RuleFileSpec) : { job with selection, ruleFiles }.forRun = job.forRun := by
  obtain ⟨name, named⟩ := Option.isSome_iff_exists.1 workspace
  obtain ⟨specs, given⟩ := Option.isSome_iff_exists.1 rules
  unfold Configuration.forRun
  simp only [asked, named, given, Option.map_some, Option.getD_some]

/-! ## Personal builds -/

def sourceNamed? (server : Repository) (kind : SourceKind) (name : String) : Option Source :=
  server.sources.find? fun s => s.kind == kind && s.name == name

/-- A personal build that succeeds reports nothing and hands on what it brought along, with the number
    of accepted change sets just when an accept ran, and with no snapshot but that of its source. When
    it brings a workspace, then whatever comes of the run, no other source is changed, and every call
    after the first one names that workspace; and when it brings rule files as well, the selection and
    the rule files of the job make no difference. Workspaces name sources in every state that a server
    comes into (`Repository.Reachable.distinctWorkspaces`). -/
theorem run_personal {personal : PersonalBuild} (asked : job.personal = some personal)
    (distinct : site.server.DistinctWorkspaces) :
    (∀ out site', run m job site = (.ok out, site') → ∃ s made,
      sourceNamed? site.server job.forRun.selection.kind job.forRun.selection.name = some s ∧
      site'.server.calls = site.server.calls ++ made ∧
      KeepsPrivate personal s (made.any (·.1 == .accept)) out) ∧
    (∀ name, personal.workspace = some name →
      ChangesOnly (sourceNamed? site.server .workspace name) site.server.sources (run m job site).2.server.sources ∧
      ∃ made, (run m job site).2.server.calls = site.server.calls ++ made ∧
        (made = [] ∨ ∃ rest, made = (.testConnection, "server") :: rest ∧ ∀ call ∈ rest, call.2 = name)) ∧
    (personal.workspace.isSome → personal.ruleFiles.isSome → ∀ selection ruleFiles,
      run m { job with selection, ruleFiles } site = run m job site) := by
  obtain ⟨rest, script, names, accepts⟩ := script_eq job.forRun
  obtain ⟨made, first, logged, all⟩ := keepsTo_run m job site
  refine ⟨fun out site' done => ?_, fun name named => ?_, fun workspace rules selection ruleFiles => ?_⟩
  · rw [done] at logged all
    obtain ⟨rfl, -⟩ := all out rfl
    obtain ⟨r, s₁, s₂, taken, s₃, files, resolved, emptied, accepted, loaded, rfl⟩ := run_eq_ok done
    obtain ⟨resolves, -, -, -⟩ := resolve_eq_ok resolved
    obtain ⟨s, found, source⟩ := resolves.source
    have personally : r.configuration.personal = some personal := by
      rw [resolves.configuration, Configuration.personal_forRun, asked]
    have ran : taken.isSome = (Fetch.script job.forRun).any (·.1 == .accept) := by
      rw [accepts, ← resolves.configuration]
      cases on : r.configuration.acceptFirst with
      | true =>
        obtain ⟨_, _, -, rfl, -⟩ := accepting_taken on accepted
        rfl
      | false =>
        obtain ⟨rfl, -⟩ := accepting_skipped on accepted
        rfl
    refine ⟨s, _, found, logged, ?_⟩
    rw [← ran]
    exact conclude_keepsPrivate personally (by rw [source])
  · have selected : job.forRun.selection = ⟨.workspace, name⟩ := by
      unfold Configuration.forRun
      simp only [asked, named, Option.map_some, Option.getD_some]
    have changes := run_changesOnly m job distinct
    rw [selected] at changes names
    refine ⟨changes, made, logged, ?_⟩
    rw [script] at first
    -- a run that fails has made the first calls of the script
    rcases List.prefix_cons_iff.1 first with none | ⟨more, rfl, earlier⟩
    · exact .inl none
    · exact .inr ⟨more, rfl, fun call member => names call (earlier.subset member)⟩
  · rw [run_congr (forRun_of_overrides asked workspace rules selection ruleFiles)]

/-- A stream with a change set that waits, beside a workspace with a snapshot and one that waits there. -/
def besideStream : RepositoryFixture where
  version := ⟨[6, 0, 6]⟩
  sources := [{
    kind := .stream
    name := "main"
    components := [⟨some "_core", "core", ∅⟩]
    pending := [⟨"core", some "_1", none, none, [], []⟩]
    componentChanges := [] }, {
    kind := .workspace
    name := "mine"
    components := [⟨some "_core", "core", ∅⟩]
    pending := [⟨"core", some "_2", none, none, [], []⟩]
    componentChanges := [] }]

def mine : PersonalBuild := { workspace := some "mine", ruleFiles := some [], properties := Dict.ofList [("owner", "me")] }

def onMine : Configuration := { selection := ⟨.stream, "main"⟩, personal := some mine }

theorem run_personal_onMine : ∃ start out site', Repository.ofFixture noonOfMay ⟨[], 0, []⟩ besideStream = .ok start ∧
    run workMachine onMine { server := start } = (.ok out, site') ∧
    (∃ s, KeepsPrivate mine s true out) ∧
    ChangesOnly (sourceNamed? start .workspace "mine") start.sources site'.server.sources ∧
    run workMachine { onMine with selection := ⟨.workspace, "gone"⟩, ruleFiles := [⟨none, ""⟩] } { server := start } =
      (.ok out, site') := by
  have ok : comesTo besideStream workMachine onMine {} (fun start _ site' =>
      start.calls.isEmpty && site'.server.calls.any (·.1 == .accept)) = true := by
    decide +kernel
  obtain ⟨start, out, site', built, ran, facts⟩ := of_comesTo ok
  obtain ⟨fresh, accepts⟩ := Bool.and_eq_true_iff.1 facts
  have distinct := Repository.ofFixture_distinctWorkspaces built
  obtain ⟨succeeds, changes, same⟩ := @run_personal workMachine onMine { server := start } mine rfl distinct
  obtain ⟨s, made, -, calls, keeps⟩ := succeeds out site' ran
  have all : site'.server.calls = made := by simpa [List.isEmpty_iff.1 fresh] using calls
  rw [← all, accepts] at keeps
  have only := (changes "mine" rfl).1
  have again := same rfl rfl ⟨.workspace, "gone"⟩ [⟨none, ""⟩]
  rw [ran] at only again
  exact ⟨start, out, site', built, ran, ⟨s, keeps⟩, only, again⟩

end Fetch

end SandboxFetch
