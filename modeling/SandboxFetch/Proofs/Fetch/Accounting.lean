/-
  SandboxFetch.Proofs.Fetch.Accounting — each pending change set is in the report of a run, once.

  A change set goes through two partitions before it is reported: the server takes what belongs to
  the components of the plan, and of that a change set stays accepted only when it touches a path
  that its component loads. The two together sort by one property of the change set, that it is in
  the scope of the plan (`LoadPlan.InScope`, `accepted_rescope`); per component nothing changes its
  place (`discarded_rescope`). The report groups what came out of this by component, and the build
  log, the properties and the head of the change log count it (`run_accounts`).
-/

import SandboxFetch.Proofs.ChangeLog.Scanning
import SandboxFetch.Proofs.Fetch.Rescoping
import SandboxFetch.Proofs.Fetch.Stages
import SandboxFetch.Proofs.Load.Planning
import SandboxFetch.Proofs.Properties
import SandboxFetch.Proofs.Report.Grouping

namespace SandboxFetch

/-! ## Scope -/

namespace LoadPlan

/-- The component of a change set is in the plan, and the change set touches a path that is loaded
    for it, or no path at all. -/
def InScope (plan : LoadPlan) (c : ChangeSet) : Prop :=
  ∃ e ∈ plan.entries, e.component.id = c.component.id ∧
    (c.changes = [] ∨ ∃ change ∈ c.changes, ∃ path ∈ change.path?, e.scope.includes path = true)

instance (plan : LoadPlan) (c : ChangeSet) : Decidable (plan.InScope c) :=
  inferInstanceAs (Decidable (∃ e ∈ plan.entries, e.component.id = c.component.id ∧
    (c.changes = [] ∨ ∃ change ∈ c.changes, ∃ path ∈ change.path?, e.scope.includes path = true)))

/-- The request of a plan covers what is in its scope, when an id means one entry. -/
theorem covers_iff {plan : LoadPlan} (distinct : plan.ids.Nodup) (c : ChangeSet) :
    plan.request.covers c = true ↔ plan.InScope c := by
  have entry : plan.request.entryFor? c.component.id = (plan.entries.find? (·.component.id == c.component.id)).map
      fun e => ⟨e.component, e.scope, plan.targetDir e⟩ := List.find?_map ..
  cases found : plan.entries.find? (·.component.id == c.component.id) with
  | none =>
    rw [found] at entry
    rw [LoadRequest.covers_of_none entry]
    refine iff_of_false Bool.false_ne_true ?_
    rintro ⟨e, member, same, -⟩
    have := List.find?_eq_none.1 found e member
    simp [same] at this
  | some e =>
    rw [found] at entry
    rw [LoadRequest.covers_of_entry entry]
    have member := List.mem_of_find?_eq_some found
    have same : e.component.id = c.component.id := by simpa using List.find?_some found
    constructor
    · intro touched
      exact ⟨e, member, same, touched⟩
    · rintro ⟨e', member', same', touched⟩
      obtain rfl : e' = e := List.inj_on_of_nodup_map distinct member' member (same'.trans same.symm)
      exact touched

theorem mem_ids_of_inScope {plan : LoadPlan} {c : ChangeSet} (h : plan.InScope c) : c.component.id ∈ plan.ids := by
  obtain ⟨e, member, same, -⟩ := h
  exact List.mem_map.2 ⟨e, member, same⟩

end LoadPlan

/-! ## The two partitions -/

variable {plan : LoadPlan} (s : Source) (baselineId : ItemId)

/-- What a run counts as accepted is what is in its scope. -/
theorem accepted_rescope (distinct : plan.ids.Nodup) :
    ((s.accept plan.ids baselineId).1.rescope plan.request).accepted =
      s.pending.filter fun c => plan.InScope c := by
  rw [AcceptOutcome.rescope_eq, (Repository.accept_fields s plan.ids baselineId).1]
  simp only [List.filter_filter]
  refine List.filter_congr fun c _ => ?_
  rw [Bool.eq_iff_iff, Bool.and_eq_true, LoadPlan.covers_iff distinct, decide_eq_true_eq]
  constructor
  · intro h
    exact h.1
  · intro h
    exact ⟨h, List.contains_iff_mem.2 (LoadPlan.mem_ids_of_inScope h)⟩

/-- What a run counts as discarded is, of each component, what is not in its scope. -/
theorem discarded_rescope (distinct : plan.ids.Nodup) (id : ItemId) :
    ((s.accept plan.ids baselineId).1.rescope plan.request).discarded.filter (·.component.id == id) =
      s.pending.filter fun c => c.component.id == id && !plan.InScope c := by
  rw [AcceptOutcome.rescope_eq, (Repository.accept_fields s plan.ids baselineId).1]
  simp only [List.filter_append, List.filter_filter]
  -- the server leaves a component whole or not at all, so one of the two parts is empty
  by_cases listed : plan.ids.contains id = true
  · have none : s.pending.filter (fun c => c.component.id == id && !plan.ids.contains c.component.id) = [] := by
      refine List.filter_eq_nil_iff.2 fun c _ h => ?_
      obtain ⟨same, left⟩ := Bool.and_eq_true_iff.1 h
      rw [eq_of_beq same, listed] at left
      cases left
    rw [none, List.nil_append]
    refine List.filter_congr fun c _ => ?_
    by_cases same : c.component.id = id
    · have scope := LoadPlan.covers_iff distinct c
      by_cases h : plan.InScope c <;> simp_all
    · have other : (c.component.id == id) = false := beq_false_of_ne same
      simp [other]
  · have none : s.pending.filter (fun c => c.component.id == id &&
        (!plan.request.covers c && plan.ids.contains c.component.id)) = [] := by
      refine List.filter_eq_nil_iff.2 fun c _ h => ?_
      simp only [Bool.and_eq_true] at h
      obtain ⟨same, -, taken⟩ := h
      rw [eq_of_beq same] at taken
      exact listed taken
    rw [none, List.append_nil]
    refine List.filter_congr fun c _ => ?_
    by_cases same : c.component.id = id
    · have outside : ¬ plan.InScope c := by
        intro h
        have := LoadPlan.mem_ids_of_inScope h
        rw [same] at this
        exact listed (List.contains_iff_mem.2 this)
      simp_all
    · have other : (c.component.id == id) = false := beq_false_of_ne same
      simp [other]

/-- The two partitions keep the number of change sets. -/
theorem length_rescope (o : AcceptOutcome) (r : LoadRequest) :
    (o.rescope r).accepted.length + (o.rescope r).discarded.length = o.accepted.length + o.discarded.length := by
  have split := List.length_eq_length_filter_add (l := o.accepted) r.covers
  simp only [AcceptOutcome.rescope_eq, List.length_append]
  omega

theorem length_accept (ids : List ItemId) :
    (s.accept ids baselineId).1.accepted.length + (s.accept ids baselineId).1.discarded.length = s.pending.length := by
  rw [(Repository.accept_fields s ids baselineId).1]
  exact (List.length_eq_length_filter_add _).symm

/-! ## Counts -/

/-- The change sets that were accepted are counted in the properties of a run that is not personal. -/
theorem Properties.get?_changesAccepted {i : PropertyInputs} {n : Nat} (accepted : i.accepted = some n)
    (shared : i.configuration.personal = none) :
    (compute i).get? "team_scm_changesAccepted" = some (Text.writeNat n) := by
  rw [get?_compute, get?_computed_changesAccepted, shared, accepted]
  rfl

namespace ChangeLog

/-- A document begins with the declaration and the tag of the root. -/
theorem write_eq_root (r : ChangeReport) :
    ∃ rest, write r = declaration ++ Line.write ⟨0, .opening, "changelog", rootAttributes r⟩ ++ rest := by
  have first : element 1 "componentChanges" [] (r.componentChanges.map componentChangeLine) ≠ [] := by
    unfold element
    split <;> exact List.cons_ne_nil _ _
  unfold write lines
  rw [element_of_inner (by simp [first]), List.cons_append, List.flatMap_cons, ← List.append_assoc]
  exact ⟨_, rfl⟩

theorem lookup_rootAttributes (r : ChangeReport) :
    (rootAttributes r).lookup "changesAccepted" = some (Text.writeNat r.acceptedCount) ∧
      (rootAttributes r).lookup "changesDiscarded" = some (Text.writeNat r.discardedCount) := by
  unfold rootAttributes
  cases r.baselineId <;> cases r.baselineName <;> exact ⟨rfl, rfl⟩

end ChangeLog

/-! ## Runs -/

def reportedWhere (p : ChangeSet → Bool) (sets : List ChangeSet) (id : ItemId) : List ReportedChangeSet :=
  (sets.filter fun c => c.component.id == id && p c).map .of

/-- A run that accepts reports each pending change set of its source once, in order and by component:
    as accepted when it is in the scope of the plan, else as discarded. All counts agree. -/
theorem run_accounts {m : Machine} {job : Configuration} {site site' : Site} {out : FetchOutcome}
    (reachable : site.server.Reachable) (shared : job.personal = none) (accepts : job.acceptFirst = true)
    (done : Fetch.run m job site = (.ok out, site'))
    (distinct : (out.resolved.components.map (·.id)).Nodup) :
    ∃ s, site.server.sources.find? (fun s => s.kind == job.selection.kind && s.name == job.selection.name) = some s ∧
      (∀ id, out.report.accepted.get? id =
        Dict.listAt (reportedWhere (fun c => out.resolved.plan.InScope c) s.pending id)) ∧
      (∀ id, out.report.discarded.get? id =
        Dict.listAt (reportedWhere (fun c => ¬ out.resolved.plan.InScope c) s.pending id)) ∧
      out.report.acceptedCount + out.report.discardedCount = s.pending.length ∧
      site'.progress = site.progress ++
        ["Resolved " ++ job.selection.text ++ " to workspace " ++ s.workspace] ++
        (if job.deleteFirst then ["Deleting contents of " ++ out.resolved.plan.root.text] else []) ++
        ["Accepting changes into workspace " ++ s.workspace,
          "Accepted " ++ Text.writeNat out.report.acceptedCount ++ " change sets, discarded " ++
            Text.writeNat out.report.discardedCount,
          "Loading " ++ Text.writeNat out.resolved.plan.entries.length ++ " components into " ++
            out.resolved.plan.root.text] ∧
      out.properties.get? "team_scm_changesAccepted" = some (Text.writeNat out.report.acceptedCount) ∧
      ∃ attributes rest,
        ChangeLog.write out.report =
          ChangeLog.declaration ++ ChangeLog.Line.write ⟨0, .opening, "changelog", attributes⟩ ++ rest ∧
        attributes.lookup "changesAccepted" = some (Text.writeNat out.report.acceptedCount) ∧
        attributes.lookup "changesDiscarded" = some (Text.writeNat out.report.discardedCount) := by
  obtain ⟨r, s₁, s₂, taken, s₃, files, resolved, emptied, accepted, loaded, rfl⟩ := Fetch.run_eq_ok done
  obtain ⟨resolves, sources, -, progress₁⟩ := Fetch.resolve_eq_ok resolved
  obtain ⟨s, -, found, owner, workspace, components⟩ := resolves.selected reachable.distinctWorkspaces
  have same : r.configuration = job :=
    resolves.configuration.trans (Configuration.forRun_of_personal_eq_none shared)
  have run : job.forRun = job := Configuration.forRun_of_personal_eq_none shared
  obtain ⟨disk, -, emptied⟩ := Fetch.emptying_eq_ok emptied
  unfold Fetch.accepting at accepted
  rw [same, accepts, if_pos rfl] at accepted
  obtain ⟨o, accepting, rfl⟩ := map_eq_ok.1 accepted
  obtain ⟨server, answer, asked, rescoped, after⟩ := Fetch.accept_eq_ok.1 accepting
  obtain ⟨s', owner', rfl, -⟩ := Repository.accept_eq_ok asked
  obtain ⟨t, listed, disk₁, disk₂, disk₃, server', -, -, -, -, -, -, finished⟩ := Fetch.loading_eq_ok loaded
  have still : s' = s := by
    rw [emptied, Fetch.sourceOf_congr sources, owner] at owner'
    exact (Except.ok.inj owner').symm
  subst still
  have ids : r.plan.ids.Nodup := by
    obtain ⟨rules, -, formed⟩ := resolves.set
    exact LoadPlan.nodup_ids_of_layOut distinct formed resolves.plan
  have report : (Fetch.conclude r files (some o)).report = ChangeReport.ofOutcome r.source.workspace o false := by
    have personal : r.configuration.isPersonal = false := by rw [same, Configuration.isPersonal, shared]; rfl
    show ChangeReport.ofOutcome r.source.workspace o r.configuration.isPersonal = _
    rw [personal]
  have countA : (Fetch.conclude r files (some o)).report.acceptedCount = o.accepted.length := by
    rw [report, ChangeReport.acceptedCount_ofOutcome]
  have countD : (Fetch.conclude r files (some o)).report.discardedCount = o.discarded.length := by
    rw [report, ChangeReport.discardedCount_ofOutcome]
  refine ⟨s', run ▸ found, fun id => ?_, fun id => ?_, ?_, ?_, ?_, ?_⟩
  -- the server takes whole components, and what is not in scope is put behind the discarded ones
  · have kept := accepted_rescope s' s₂.server.ids.draw.1 ids
    rw [report]
    show (ChangeReport.group o.accepted).get? id = _
    rw [ChangeReport.get?_group, rescoped, ChangeReport.reportedOf, kept, List.filter_filter]
    rfl
  · have left := discarded_rescope s' s₂.server.ids.draw.1 ids id
    rw [report]
    show (ChangeReport.group o.discarded).get? id = _
    rw [ChangeReport.get?_group, rescoped, ChangeReport.reportedOf, left]
    simp only [reportedWhere, decide_not]
    rfl
  · rw [countA, countD, rescoped, length_rescope, length_accept]
  -- each stage adds its lines to the build log
  · rw [countA, countD, finished, after, emptied]
    simp only [progress₁, Fetch.acceptLines, same, run, workspace, List.append_assoc]
    rfl
  · have personal : r.configuration.personal = none := by rw [same, shared]
    unfold Fetch.conclude
    dsimp only
    exact Properties.get?_changesAccepted rfl personal
  · obtain ⟨rest, written⟩ := ChangeLog.write_eq_root (Fetch.conclude r files (some o)).report
    obtain ⟨atAccepted, atDiscarded⟩ := ChangeLog.lookup_rootAttributes (Fetch.conclude r files (some o)).report
    exact ⟨_, rest, written, atAccepted, atDiscarded⟩

def workMachine : Machine := { workingDir := "/work", now := noonOfMay }

def coreOnly : Configuration := { selection := ⟨.stream, "main"⟩, listedNames := ["core"], listIncludes := true }

def comesTo (fixture : RepositoryFixture) (m : Machine) (job : Configuration) (disk : Disk)
    (p : Repository → FetchOutcome → Site → Bool) : Bool :=
  match Repository.ofFixture noonOfMay ⟨[], 0, []⟩ fixture with
  | .error _ => false
  | .ok start =>
    match Fetch.run m job { server := start, disk } with
    | (.error _, _) => false
    | (.ok out, site') => p start out site'

theorem of_comesTo {fixture : RepositoryFixture} {m : Machine} {job : Configuration} {disk : Disk}
    {p : Repository → FetchOutcome → Site → Bool} (h : comesTo fixture m job disk p = true) :
    ∃ start out site', Repository.ofFixture noonOfMay ⟨[], 0, []⟩ fixture = .ok start ∧
      Fetch.run m job { server := start, disk } = (.ok out, site') ∧ p start out site' = true := by
  unfold comesTo at h
  split at h
  · cases h
  · next start built =>
    split at h
    · cases h
    · next out site' ran => exact ⟨start, out, site', built, ran, h⟩

theorem run_accounts_coreOnly : ∃ start out site', Repository.ofFixture noonOfMay ⟨[], 0, []⟩ twoPending = .ok start ∧
    Fetch.run workMachine coreOnly { server := start } = (.ok out, site') ∧
    ∃ s ∈ start.sources, s.pending.map (·.id) = ["_1", "_2"] ∧
      ∀ id, out.report.discarded.get? id =
        Dict.listAt (reportedWhere (fun c => ¬ out.resolved.plan.InScope c) s.pending id) := by
  have ok : comesTo twoPending workMachine coreOnly {} (fun start out _ =>
      start.sources.all (fun s => s.pending.map (·.id) == ["_1", "_2"]) &&
        out.resolved.components.map (·.id) == ["_core", "_docs"]) = true := by
    decide +kernel
  obtain ⟨start, out, site', built, ran, facts⟩ := of_comesTo ok
  obtain ⟨pending, ids⟩ := Bool.and_eq_true_iff.1 facts
  have reachable : ({ server := start } : Site).server.Reachable := ⟨_, _, _, _, {}, [], built, rfl⟩
  have distinct : (out.resolved.components.map (·.id)).Nodup := by
    rw [eq_of_beq ids]
    decide
  obtain ⟨s, found, -, discarded, -⟩ := run_accounts reachable rfl rfl ran distinct
  have member := List.mem_of_find?_eq_some found
  exact ⟨start, out, site', built, ran, s, member, eq_of_beq (List.all_eq_true.1 pending s member), discarded⟩

end SandboxFetch
