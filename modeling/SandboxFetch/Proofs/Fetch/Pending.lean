/-
  SandboxFetch.Proofs.Fetch.Pending — which change sets are still pending after a run reported them.

  What is reported as discarded comes from two places. The server leaves the change sets of other
  components pending; those of the components of the plan it takes, and of these a run puts the ones
  that touch nothing it loads with the discarded ones. Only the first kind waits for a later run,
  which reports it as accepted as soon as its request covers it. So a run leaves all pending that it
  reports as discarded just when its request covers all that waits for the components of its plan
  (`run_keeps_discarded_iff`), and a load rule can lose a change set for good
  (`not_keeps_discarded_besideRule`).
-/

import SandboxFetch.Proofs.Fetch.Accounting
import SandboxFetch.Proofs.Fetch.Lasting

namespace SandboxFetch

/-! ## Reported change sets -/

def ReportedIn (d : Dict (List ReportedChangeSet)) (e : ReportedChangeSet) : Prop :=
  ∃ id sets, d.get? id = some sets ∧ e ∈ sets

theorem listAt_eq_some {α : Type} {l l' : List α} : Dict.listAt l = some l' ↔ l' = l ∧ l ≠ [] := by
  cases l with
  | nil => simp [Dict.listAt]
  | cons a rest => simp [Dict.listAt, eq_comm]

/-- A grouping lists each of its change sets, and no other. -/
theorem reportedIn_group {sets : List ChangeSet} {e : ReportedChangeSet} :
    ReportedIn (ChangeReport.group sets) e ↔ ∃ c ∈ sets, ReportedChangeSet.of c = e := by
  have member : ∀ id, e ∈ ChangeReport.reportedOf sets id ↔
      ∃ c ∈ sets, c.component.id = id ∧ ReportedChangeSet.of c = e := by
    intro id
    simp only [ChangeReport.reportedOf, List.mem_map, List.mem_filter, beq_iff_eq, and_assoc]
  constructor
  · rintro ⟨id, listed, found, there⟩
    rw [ChangeReport.get?_group, listAt_eq_some] at found
    rw [found.1, member] at there
    obtain ⟨c, among, -, same⟩ := there
    exact ⟨c, among, same⟩
  · rintro ⟨c, among, same⟩
    have there := (member c.component.id).2 ⟨c, among, rfl, same⟩
    refine ⟨c.component.id, _, ?_, there⟩
    rw [ChangeReport.get?_group, listAt_eq_some]
    exact ⟨rfl, List.ne_nil_of_mem there⟩

variable {s : Source} {plan : LoadPlan} {baselineId : ItemId} {c : ChangeSet}

/-- A request covers change sets of its components only. -/
theorem LoadPlan.mem_ids_of_covers (h : plan.request.covers c = true) : c.component.id ∈ plan.ids := by
  unfold LoadRequest.covers at h
  split at h
  · cases h
  · next e found =>
    obtain ⟨entry, member, rfl⟩ := List.mem_map.1 (List.mem_of_find?_eq_some found)
    have same : entry.component.id = c.component.id := by simpa using List.find?_some found
    exact List.mem_map.2 ⟨entry, member, same⟩

/-- What a run counts as accepted is what its request covers. -/
theorem mem_accepted_rescope : c ∈ ((s.accept plan.ids baselineId).1.rescope plan.request).accepted ↔
    c ∈ s.pending ∧ plan.request.covers c = true := by
  rw [AcceptOutcome.rescope_eq, (Repository.accept_fields s plan.ids baselineId).1]
  simp only [List.mem_filter, List.contains_iff_mem]
  constructor
  · rintro ⟨⟨pending, -⟩, covered⟩
    exact ⟨pending, covered⟩
  · rintro ⟨pending, covered⟩
    exact ⟨⟨pending, LoadPlan.mem_ids_of_covers covered⟩, covered⟩

theorem mem_discarded_rescope : c ∈ ((s.accept plan.ids baselineId).1.rescope plan.request).discarded ↔
    c ∈ s.pending ∧ ¬ plan.request.covers c = true := by
  rw [AcceptOutcome.rescope_eq, (Repository.accept_fields s plan.ids baselineId).1]
  simp only [List.mem_append, List.mem_filter, List.contains_iff_mem, Bool.not_eq_true',
    Bool.not_eq_true, ← Bool.not_eq_true (List.contains _ _)]
  constructor
  · rintro (⟨pending, other⟩ | ⟨⟨pending, -⟩, outside⟩)
    · refine ⟨pending, ?_⟩
      rw [← Bool.not_eq_true]
      exact fun covered => other (LoadPlan.mem_ids_of_covers covered)
    · exact ⟨pending, outside⟩
  · rintro ⟨pending, outside⟩
    by_cases listed : c.component.id ∈ plan.ids
    · exact .inr ⟨⟨pending, listed⟩, outside⟩
    · exact .inl ⟨pending, listed⟩

/-- What an accept leaves pending. -/
theorem mem_pending_accept {ids : List ItemId} :
    c ∈ (s.accept ids baselineId).2.pending ↔ c ∈ s.pending ∧ c.component.id ∉ ids := by
  rw [(Repository.accept_fields s ids baselineId).2]
  simp only [List.mem_filter, Bool.not_eq_true', ← Bool.not_eq_true, List.contains_iff_mem]

/-! ## Runs -/

/-- A run leaves all pending that it reports as discarded just when its request covers whatever waited
    for the components of its plan. What is still pending is reported as accepted by a later run whose
    request covers it. -/
theorem run_keeps_discarded_iff {m : Machine} {job : Configuration} {site site' : Site} {out : FetchOutcome}
    (reachable : site.server.Reachable) (shared : job.personal = none) (accepts : job.acceptFirst = true)
    (done : Fetch.run m job site = (.ok out, site')) :
    ∃ s s', site.server.sourceOf out.resolved.source = .ok s ∧ site'.server.sourceOf out.resolved.source = .ok s' ∧
      (∀ e, ReportedIn out.report.accepted e ↔ ∃ c ∈ s.pending, out.resolved.plan.request.covers c = true ∧ .of c = e) ∧
      (∀ e, ReportedIn out.report.discarded e ↔ ∃ c ∈ s.pending, ¬ out.resolved.plan.request.covers c = true ∧ .of c = e) ∧
      (∀ c, c ∈ s'.pending ↔ c ∈ s.pending ∧ c.component.id ∉ out.resolved.plan.ids) ∧
      ((∀ e, ReportedIn out.report.discarded e → ∃ c ∈ s'.pending, .of c = e) ↔
        ∀ c ∈ s.pending, c.component.id ∈ out.resolved.plan.ids → out.resolved.plan.request.covers c = true) ∧
      ∀ m' wider site'' later, wider.selection = job.selection → wider.personal = none → wider.acceptFirst = true →
        Fetch.run m' wider site' = (.ok later, site'') →
        ∀ c ∈ s'.pending, later.resolved.plan.request.covers c = true → ReportedIn later.report.accepted (.of c) := by
  have distinct := reachable.distinctWorkspaces
  have plain : job.isPersonal = false := by rw [Configuration.isPersonal, shared]; rfl
  obtain ⟨s, baselineId, found, owner, after, report, lasts⟩ := Fetch.run_accepts distinct accepts done
  rw [plain] at report
  have accepted : ∀ e, ReportedIn out.report.accepted e ↔
      ∃ c ∈ s.pending, out.resolved.plan.request.covers c = true ∧ .of c = e := by
    intro e
    rw [report]
    simp only [ChangeReport.ofOutcome, Bool.false_eq_true, if_false, reportedIn_group, mem_accepted_rescope, and_assoc]
  have discarded : ∀ e, ReportedIn out.report.discarded e ↔
      ∃ c ∈ s.pending, ¬ out.resolved.plan.request.covers c = true ∧ .of c = e := by
    intro e
    rw [report]
    simp only [ChangeReport.ofOutcome, Bool.false_eq_true, if_false, reportedIn_group, mem_discarded_rescope, and_assoc]
  refine ⟨s, _, owner, after, accepted, discarded, fun c => mem_pending_accept, ⟨fun kept c waits listed => ?_,
    fun covered e reported => ?_⟩, fun m' wider site'' later selection shared' accepts' done' c waits covered => ?_⟩
  -- a change set that is taken but not covered is reported, and not pending any more
  · by_contra outside
    obtain ⟨c', still, same⟩ := kept _ ((discarded _).2 ⟨c, waits, outside, rfl⟩)
    have component : c'.component = c.component := congrArg ReportedChangeSet.component same
    rw [mem_pending_accept, component] at still
    exact still.2 listed
  · obtain ⟨c, waits, outside, same⟩ := (discarded e).1 reported
    exact ⟨c, mem_pending_accept.2 ⟨waits, fun listed => outside (covered c waits listed)⟩, same⟩
  · have steady := Repository.distinctWorkspaces_of_lasting lasts distinct
    have plain' : wider.isPersonal = false := by rw [Configuration.isPersonal, shared']; rfl
    obtain ⟨t, id, found', owner', -, report', -⟩ := Fetch.run_accepts steady accepts' done'
    -- the later run finds the source under the same name, and so in the state it was left in
    have first := Repository.find?_of_lasting lasts
      (p := fun s => s.kind == job.selection.kind && s.name == job.selection.name) fun _ => rfl
    rw [Configuration.forRun_of_personal_eq_none shared] at found
    rw [Configuration.forRun_of_personal_eq_none shared', selection] at found'
    rw [found, found', Option.map_some, Option.map_some, Option.some_inj] at first
    have workspace : t.workspace = s.workspace := by
      show t.lasting.workspace = s.lasting.workspace
      rw [first]
    have next : ((s.accept out.resolved.plan.ids baselineId).2).workspace = s.workspace := by
      rw [(Repository.accept_fields s _ _).2]
    have same := steady.eq_of_workspace (List.mem_of_find?_eq_some found') (Repository.sourceOf_eq_ok after).1
      (workspace.trans next.symm)
    rw [plain', same] at report'
    rw [report']
    simp only [ChangeReport.ofOutcome, Bool.false_eq_true, if_false, reportedIn_group, mem_accepted_rescope]
    exact ⟨c, ⟨waits, covered⟩, rfl⟩

theorem run_keeps_discarded_coreOnly : ∃ start out site',
    Repository.ofFixture noonOfMay ⟨[], 0, []⟩ twoPending = .ok start ∧
    Fetch.run workMachine coreOnly { server := start } = (.ok out, site') ∧
    ∃ s', site'.server.sourceOf out.resolved.source = .ok s' ∧
      ∀ e, ReportedIn out.report.discarded e → ∃ c ∈ s'.pending, .of c = e := by
  have ok : comesTo twoPending workMachine coreOnly {} (fun start out _ => start.sources.all fun s =>
      s.pending.all fun c => !out.resolved.plan.ids.contains c.component.id || out.resolved.plan.request.covers c) =
      true := by
    decide +kernel
  obtain ⟨start, out, site', built, ran, facts⟩ := of_comesTo ok
  have reachable : ({ server := start } : Site).server.Reachable := ⟨_, _, _, _, {}, [], built, rfl⟩
  obtain ⟨s, s', owner, after, -, -, -, keeps, -⟩ := run_keeps_discarded_iff reachable rfl rfl ran
  refine ⟨start, out, site', built, ran, s', after, keeps.2 fun c waits listed => ?_⟩
  have covered := List.all_eq_true.1 (List.all_eq_true.1 facts s (Repository.sourceOf_eq_ok owner).1) c waits
  simpa [listed] using covered

/-- A stream with a component whose rule loads `lib`, and a change set beside it that waits. -/
def besideRule : RepositoryFixture where
  version := ⟨[6, 0, 6]⟩
  sources := [{
    kind := .stream
    name := "main"
    components := [((ComponentFixture.withFile ⟨some "_core", "core", ∅⟩ "docs/guide.txt" "guide").withFile
      "lib.rules" "RootFolderName=/lib\n").withFile "lib/a.txt" "a"]
    pending := [⟨"core", some "_1", none, none, [⟨"_guide", ⟨none, none⟩, ⟨some "docs/guide.txt", some "_s1"⟩⟩], []⟩]
    componentChanges := [] }]

def underRules (ruleFiles : List RuleFileSpec) : Configuration := { selection := ⟨.stream, "main"⟩, ruleFiles }

/-- The run with the rule reports the change set as discarded, and no change set is pending afterwards;
    the run without it, which covers the change set, does not report it any more. -/
theorem not_keeps_discarded_besideRule : ∃ start out site' later site'',
    Repository.ofFixture noonOfMay ⟨[], 0, []⟩ besideRule = .ok start ∧
    Fetch.run workMachine (underRules [⟨some "core", "lib.rules"⟩]) { server := start } = (.ok out, site') ∧
    Fetch.run workMachine (underRules []) site' = (.ok later, site'') ∧
    (∃ e, ReportedIn out.report.discarded e ∧ e.id = "_1") ∧ (∀ s ∈ site'.server.sources, s.pending = []) ∧
    (∀ s ∈ start.sources, s.pending.all later.resolved.plan.request.covers = true) ∧
    later.report.acceptedCount = 0 := by
  have ok : comesTo besideRule workMachine (underRules [⟨some "core", "lib.rules"⟩]) {} (fun start out site' =>
      (out.report.discarded.get? "_core").any (fun sets => sets.any (·.id == "_1")) &&
        site'.server.sources.all (·.pending.isEmpty) &&
        (Fetch.run workMachine (underRules []) site').1.toOption.any fun later =>
          start.sources.all (fun s => s.pending.all later.resolved.plan.request.covers) && later.report.acceptedCount == 0) =
      true := by
    decide +kernel
  obtain ⟨start, out, site', built, ran, facts⟩ := of_comesTo ok
  rw [Bool.and_eq_true, Bool.and_eq_true] at facts
  obtain ⟨⟨reported, left⟩, again⟩ := facts
  cases ran' : Fetch.run workMachine (underRules []) site' with
  | mk result site'' =>
    rw [ran'] at again
    cases result with
    | error e => cases again
    | ok later =>
      obtain ⟨covered, none⟩ := Bool.and_eq_true_iff.1 again
      obtain ⟨sets, found, among⟩ := (Option.any_eq_true _ _).1 reported
      obtain ⟨e, member, named⟩ := List.any_eq_true.1 among
      refine ⟨start, out, site', later, site'', built, ran, ran', ⟨e, ⟨"_core", sets, found, member⟩, eq_of_beq named⟩, ?_,
        List.all_eq_true.1 covered, eq_of_beq none⟩
      exact fun s there => List.isEmpty_iff.1 (List.all_eq_true.1 left s there)

end SandboxFetch
