/-
  SandboxFetch.Proofs.Fetch.Repeating — the same run once more.

  What a run resolves to, and the files that it is given, hang on what lasts of the server, so a
  second run is given the same. Whatever the first one could write the second one can write again
  (`stores_again`): the disk that it begins with, emptied or not, is between the one that the first
  run wrote to and the one that it left. Only the time in the metadata changes. An accept leaves
  nothing of its plan pending, and so the second one has nothing to take (`run_again`).
-/

import SandboxFetch.Proofs.Disk.Touching
import SandboxFetch.Proofs.Fetch.Exactness
import SandboxFetch.Proofs.Load.Forward

namespace SandboxFetch

open Disk (Wrote Between)

/-! ## The disk -/

namespace Tree

theorem linkless_of_entries {t : Tree} (h : ∀ e ∈ t.entries, (e.2 matches .link _) = false) : t.Linkless := by
  intro l target there
  unfold at? nodeAt? at there
  split at there
  · cases there
  · obtain ⟨before, after, entries, -⟩ := List.lookup_eq_some_iff.1 there
    have other := h (l, .link target) (by simp [entries])
    cases other

end Tree

namespace Fetch

variable {d d' d₁ d₂ t : Disk} {root : Path} {files : List (Path × String)} {metadata : String} {deletes : Bool}
  {l top : Location}

/-- What a run does to a disk: it empties its destination when it is to, makes it when it is missing,
    and writes files, the metadata last. -/
def Stores (deletes : Bool) (root : Path) (files : List (Path × String)) (metadata : String) (d d' : Disk) : Prop :=
  ∃ d₁ d₂ d₃, (if deletes then Emptied root d d₁ else d₁ = d) ∧ Ensured root d₁ d₂ ∧
    Disk.writeAll files d₂ = (.ok (), d₃) ∧ d₃.write (root.push metadataName) metadata = .ok d'

theorem status_of_isDirectory (there : d.isDirectory root = true) : d.status root = .ok .directory := by
  unfold Disk.isDirectory at there
  split at there
  · assumption
  · cases there

/-- An empty path leads nowhere. -/
theorem status_of_isEmpty (empty : root.isEmpty = true) : d.status root = .ok .absent := by
  unfold Disk.status Disk.locate Disk.pathFault?
  rw [if_pos empty]

/-- Nothing is below a destination without `..` that is about to be loaded into. -/
theorem bare_of_forward (inner : root.isEmpty = false) (forward : root.Forward) (emptied : Emptied root d d₁)
    (ensured : Ensured root d₁ d₂) (leads : d₂.place? root = some top) (below : l.isBelow top = true) :
    d₂.tree.at? l = none := by
  have forward' := Path.forward_iff_steps.1 forward
  rcases ensured with ⟨status, rfl⟩ | ⟨status, made⟩
  · exact cleared_of_forward inner forward' emptied (.inl ⟨status, rfl⟩) leads below
  · obtain ⟨top', new⟩ := new_of_ensured inner forward' status made
    obtain rfl : top' = top := Option.some.inj (new.leads.symm.trans leads)
    exact new.bare l below

/-- The empty path is there without being made. -/
theorem ensured_of_isEmpty (empty : root.isEmpty = true) : Ensured root d d := by
  refine .inr ⟨status_of_isEmpty empty, ?_⟩
  obtain rfl := Path.eq_empty empty
  have outermost : Path.parent? ⟨""⟩ = none := by decide
  unfold Disk.makeDirectories
  rw [outermost]
  rfl

/-- The disk that a second run writes to is between the one that the first run wrote to and the one
    that it left; what it does not have of the latter was taken away. -/
theorem between_of_emptied (forward : root.Forward) (begun : if deletes then Emptied root d d₁ else d₁ = d)
    (ensured : Ensured root d₁ d₂) (here : t.here = d₂.here) (grows : d₂.tree.Grows t.tree) :
    ∃ e, (if deletes then Emptied root t e else e = t) ∧ Ensured root e e ∧ Between d₂ t e ∧
      ∀ l, e.tree.at? l = t.tree.at? l ∨ e.tree.at? l = none := by
  have all : Between d₂ t t := ⟨here, here, grows, .refl _⟩
  cases inner : root.isEmpty with
  | true =>
    refine ⟨t, ?_, ensured_of_isEmpty inner, all, fun l => .inl rfl⟩
    split
    · exact .inr ⟨status_of_isEmpty inner, rfl⟩
    · rfl
  | false =>
    have made := isDirectory_of_ensured inner ensured
    have there := status_of_isDirectory (all.isDirectory made)
    cases deletes with
    | false => exact ⟨t, rfl, .inl ⟨there, rfl⟩, all, fun l => .inl rfl⟩
    | true =>
      have emptied : Emptied root t (t.clear root) := .inl ⟨there, rfl⟩
      obtain ⟨same, left⟩ := at?_of_emptied emptied
      obtain ⟨top, leads, -⟩ := Disk.isDirectory_iff.1 made
      have b : Between d₂ t (t.clear root) := by
        refine ⟨same.trans here, here, fun l n known => ?_, grows_of_emptied emptied⟩
        -- the first run wrote to a bare destination, so nothing that it found there is taken away
        have outside : t.isUnder root l ≠ true := by
          intro under
          obtain ⟨top', leads', below⟩ := Disk.isUnder_iff.1 under
          obtain rfl : top' = top := Option.some.inj (leads'.symm.trans (all.place? leads))
          rw [bare_of_forward inner forward begun ensured leads below] at known
          cases known
        rw [left, if_neg outside]
        exact grows l n known
      refine ⟨_, emptied, .inl ⟨status_of_isDirectory (b.isDirectory made), rfl⟩, b, fun l => ?_⟩
      rw [left]
      split
      · exact .inr rfl
      · exact .inl rfl

/-- What a run did to a disk without links can be done again. It changes nothing but the metadata. -/
theorem stores_again {metadata' : String} (linkless : d.tree.Linkless) (forward : root.Forward)
    (forwards : ∀ f ∈ files, f.1.Forward) (done : Stores deletes root files metadata d t) :
    ∃ e, Stores deletes root files metadata' t e ∧ ∃ place, t.place? (root.push metadataName) = some place ∧
      t.tree.at? place = some (.file metadata) ∧
      ∀ l, e.tree.at? l = if l = place then some (.file metadata') else t.tree.at? l := by
  obtain ⟨d₁, d₂, d₃, begun, ensured, stored, last⟩ := done
  have whole := (Disk.wrote_of_writeAll stored).append (Disk.wrote_of_write last)
  have grown := (Disk.wrote_of_write last).grows
  have linkless' : t.tree.Linkless := by
    have before : d₁.tree.Linkless := by
      split at begun
      · intro l target there
        exact linkless l target ((grows_of_emptied begun).link there)
      · rw [begun]
        exact linkless
    exact whole.touched.linkless ((wrote_of_ensured ensured).touched.linkless before)
  obtain ⟨e₁, begun', ensured', b, left⟩ := between_of_emptied forward begun ensured whole.here whole.grows
  obtain ⟨e₃, stored', b₃⟩ := Disk.writeAll_between linkless' forwards b stored grown
  have named : Path.Forward ⟨metadataName⟩ := by decide
  obtain ⟨e, last', b'⟩ : ∃ e, e₃.write (root.push metadataName) metadata' = .ok e ∧ Between t t e :=
    Disk.write_between linkless' (forward.push named) b₃ last (.refl _)
  refine ⟨e, ⟨e₁, e₁, e₃, begun', ensured', stored', last'⟩, ?_⟩
  exact Disk.at?_of_again b' whole ((Disk.wrote_of_writeAll stored').append (Disk.wrote_of_write last')) left

/-! ## The run -/

variable {m : Machine} {job : Configuration} {r : ResolvedFetch} {site site' site'' : Site} {out : FetchOutcome}

/-- A run that succeeded wrote what the server gives out for its plan. -/
theorem run_stores (distinct : site.server.DistinctWorkspaces) (done : run m job site = (.ok out, site')) :
    ∃ files, (Repository.filesFor out.resolved.source out.resolved.plan.request site.server).1 = .ok files ∧
      out.files = files.map (·.1) ∧
      Stores out.resolved.configuration.deleteFirst out.resolved.plan.root files (metadataText out.resolved m.now)
        site.disk site'.disk := by
  obtain ⟨r, s₁, s₂, taken, s₃, paths, resolved, emptied, accepted, loaded, rfl⟩ := run_eq_ok done
  obtain ⟨-, -, disk₁, -⟩ := resolve_eq_ok resolved
  have before : lasting s₂ = lasting site :=
    (lasting_of_emptying emptied).trans ((asks_resolve m job).keeps.of_eq resolved)
  have kept := (accepting_leaves accepted).2 (Repository.distinctWorkspaces_of_lasting before distinct)
  obtain ⟨disk, begun, rfl⟩ := emptying_eq_ok emptied
  obtain ⟨files, server, d₁, d₂, d₃, given, ensured, stored, last, named, rfl⟩ := loading_iff.1 loaded
  have answer := (Repository.asks_filesFor r.source r.plan.request).answer s₃.server site.server (kept.trans before)
  rw [given] at answer
  rw [(accepting_leaves accepted).1] at ensured
  rw [disk₁] at begun
  exact ⟨files, answer.symm, named, disk, d₁, d₂, begun, ensured, stored, last⟩

theorem accepting_again {taken : Option AcceptOutcome} (lasts : lasting site'' = lasting site)
    (done : accepting r site = (.ok taken, site')) : ∃ taken' next, accepting r site'' = (.ok taken', next) := by
  unfold accepting at done ⊢
  split at done
  · next on =>
    rw [if_pos on]
    obtain ⟨o, accepted, -⟩ := map_eq_ok.1 done
    obtain ⟨server, answer, asked, -, -⟩ := accept_eq_ok.1 accepted
    obtain ⟨answer', server', asked'⟩ := Repository.accept_again lasts asked
    exact ⟨_, _, map_eq_ok.2 ⟨_, accept_eq_ok.2 ⟨server', answer', asked', rfl, rfl⟩, rfl⟩⟩
  · next off =>
    rw [if_neg off]
    exact ⟨_, _, rfl⟩

/-- A run that succeeded succeeds again where the same lasts, if the disk and the machine let it. -/
theorem run_of_stores {e : Disk} {files : List (Path × String)} (later : Timestamp)
    (distinct : site.server.DistinctWorkspaces) (done : run m job site = (.ok out, site'))
    (lasts : lasting site'' = lasting site)
    (spares : out.resolved.configuration.deleteFirst = true → m.Spares out.resolved.plan.root site''.disk)
    (given : (Repository.filesFor out.resolved.source out.resolved.plan.request site.server).1 = .ok files)
    (stores : Stores out.resolved.configuration.deleteFirst out.resolved.plan.root files (metadataText out.resolved later)
      site''.disk e) :
    ∃ out' next, run { m with now := later } job site'' = (.ok out', next) ∧ out'.resolved = out.resolved ∧
      out'.files = files.map (·.1) ∧ next.disk = e := by
  obtain ⟨r, s₁, s₂, taken, s₃, paths, resolved, emptied, accepted, loaded, rfl⟩ := run_eq_ok done
  obtain ⟨d₁, d₂, d₃, begun, ensured, stored, last⟩ := stores
  have before : lasting s₂ = lasting site :=
    (lasting_of_emptying emptied).trans ((asks_resolve m job).keeps.of_eq resolved)
  obtain ⟨t₁, resolved'⟩ : ∃ t₁, resolve { m with now := later } job site'' = (.ok r, t₁) := by
    have answer : (resolve m job site'').1 = .ok r :=
      ((asks_resolve m job).answer site'' site lasts).trans (congrArg Prod.fst resolved)
    exact ⟨_, Prod.ext answer rfl⟩
  obtain ⟨-, -, disk₁, -⟩ := resolve_eq_ok resolved'
  obtain ⟨t₂, emptied', disk₂⟩ : ∃ t₂, emptying { m with now := later } r t₁ = (.ok (), t₂) ∧ t₂.disk = d₁ := by
    refine emptying_of_emptied (fun deletes => ?_) (by rwa [disk₁])
    rw [disk₁]
    exact spares deletes
  -- each stage finds what it found in the first run
  have before' := ((lasting_of_emptying emptied').trans ((asks_resolve _ job).keeps.of_eq resolved')).trans lasts
  obtain ⟨taken', t₃, accepted'⟩ := accepting_again (before'.trans before.symm) accepted
  have kept' := (accepting_leaves accepted').2 (Repository.distinctWorkspaces_of_lasting before' distinct)
  obtain ⟨server, given'⟩ : ∃ server,
      Repository.filesFor r.source r.plan.request t₃.server = (.ok files, server) := by
    have answer : (Repository.filesFor r.source r.plan.request t₃.server).1 = .ok files :=
      ((Repository.asks_filesFor _ _).answer t₃.server site.server (kept'.trans before')).trans given
    exact ⟨_, Prod.ext answer rfl⟩
  rw [← disk₂, ← (accepting_leaves accepted').1] at ensured
  obtain ⟨next, loaded', disk'⟩ : ∃ next,
      loading { m with now := later } r t₃ = (.ok (files.map (·.1)), next) ∧ next.disk = e :=
    ⟨_, loading_iff.2 ⟨files, server, d₂, d₃, e, given', ensured, stored, last, rfl, rfl⟩, rfl⟩
  refine ⟨conclude r (files.map (·.1)) taken', next, ?_, rfl, rfl, disk'⟩
  rw [run_eq, bind_of_ok resolved', bind_of_ok emptied', bind_of_ok accepted', bind_of_ok loaded']
  rfl

/-- A run that does not accept reports nothing. -/
theorem report_of_skipped (skips : job.acceptFirst = false) (done : run m job site = (.ok out, site')) :
    ∃ workspace personal, out.report = ChangeReport.ofOutcome workspace {} personal := by
  obtain ⟨r, s₁, s₂, taken, s₃, paths, resolved, -, accepted, -, rfl⟩ := run_eq_ok done
  obtain ⟨resolves, -, -, -⟩ := resolve_eq_ok resolved
  have off : r.configuration.acceptFirst = false := by rw [resolves.configuration, job.acceptFirst_forRun, skips]
  obtain ⟨rfl, -⟩ := accepting_skipped off accepted
  exact ⟨_, _, rfl⟩

end Fetch

/-! ## Accepting twice -/

namespace Source

variable (s : Source) (ids : List ItemId) (first second : ItemId) (request : LoadRequest)

/-- After an accept nothing of the same components is left to be accepted. -/
theorem accept_again_nothing : (((s.accept ids first).2.accept ids second).1.rescope request).accepted = [] ∧
    (((s.accept ids first).2.accept ids second).1.rescope request).componentChanges = [] := by
  have none : (s.pending.filter fun c => !ids.contains c.component.id).filter (fun c => ids.contains c.component.id) =
      [] := by
    rw [List.filter_filter, List.filter_eq_nil_iff]
    intro c _
    simp
  rw [AcceptOutcome.rescope_eq, (Repository.accept_fields _ ids second).1, (Repository.accept_fields s ids first).2]
  simp only [none, List.filter_nil, and_self]

theorem baselineName_accept (makes : s.makesBaselines = true) (workspace : ItemId) :
    (ChangeReport.ofOutcome workspace ((s.accept ids first).1.rescope request) false).baselineName =
        some (s.baselineName (s.baselines + 1)) ∧
      (s.accept ids first).2.makesBaselines = true ∧ (s.accept ids first).2.baselines = s.baselines + 1 := by
  rw [AcceptOutcome.rescope_eq, (Repository.accept_fields s ids first).1, (Repository.accept_fields s ids first).2,
    makes]
  exact ⟨rfl, makes, rfl⟩

end Source

theorem ChangeReport.ofOutcome_nothing {o : AcceptOutcome} (accepted : o.accepted = [])
    (changes : o.componentChanges = []) (workspace : ItemId) (personal : Bool) :
    (ChangeReport.ofOutcome workspace o personal).accepted = ∅ ∧
      (ChangeReport.ofOutcome workspace o personal).componentChanges = [] := by
  unfold ChangeReport.ofOutcome
  rw [accepted, changes]
  cases personal <;> exact ⟨rfl, rfl⟩

/-! ## Runs without `..` -/

structure ForwardJob (m : Machine) (job : Configuration) (s : Source) : Prop where
  workingDir : m.workingDir.Forward
  destination : ['.', '.'] ∉ destinationSegments job.destination m.host
  files : ∀ c ∈ s.components, ∀ f ∈ c.files.toList, Path.Forward ⟨f.1⟩
  folders : job.componentFolders = true → ∀ c ∈ s.components, Path.Forward ⟨c.component.name⟩

namespace Fetch

/-- Neither the destination nor a file that is written has a `..`. -/
theorem forward_of_job {m : Machine} {job : Configuration} {server : Repository} {r : ResolvedFetch} {s : Source}
    (resolves : Resolves m job server r) (owner : server.sourceOf r.source = .ok s) (forward : ForwardJob m job s)
    {files : List (Path × String)} (given : s.filesFor r.plan.request = .ok files) :
    r.plan.root.Forward ∧ ∀ f ∈ files, f.1.Forward := by
  obtain ⟨t, owner', components⟩ := resolves.components
  obtain rfl : t = s := Except.ok.inj (owner'.symm.trans owner)
  obtain ⟨rules, -, formed⟩ := resolves.set
  have same : job.forRun.destination = job.destination ∧ job.forRun.componentFolders = job.componentFolders := by
    rw [job.forRun_eq]
    exact ⟨rfl, rfl⟩
  have root : r.plan.root.Forward := by
    refine forward_resolveDestination forward.workingDir forward.destination ?_
    rw [← same.1]
    exact (LoadPlan.layOut_eq_ok resolves.plan).1
  refine ⟨root, forward_filesFor root (fun e member => ?_) forward.files given⟩
  refine forward_folder formed resolves.plan (fun on component member => ?_) member
  rw [components] at member
  obtain ⟨c, stored, rfl⟩ := List.mem_map.1 member
  exact forward.folders (same.2 ▸ on) c stored

end Fetch

/-- A run that succeeded on a disk without links, and without a `..` anywhere, succeeds again with the
    same plan and the same files, as long as the machine lets it empty the destination. The second run
    changes nothing on the disk but the time in the metadata, and nothing is left for it to accept; its
    baseline has the next number. -/
theorem run_again {m : Machine} {job : Configuration} {site site' : Site} {out : FetchOutcome} {s : Source}
    (reachable : site.server.Reachable) (linkless : site.disk.tree.Linkless)
    (done : Fetch.run m job site = (.ok out, site')) (owner : site.server.sourceOf out.resolved.source = .ok s)
    (forward : ForwardJob m job s) (spares : job.deleteFirst = true → m.Spares out.resolved.plan.root site'.disk)
    (later : Timestamp) :
    ∃ again site'', Fetch.run { m with now := later } job site' = (.ok again, site'') ∧
      again.resolved = out.resolved ∧ again.files = out.files ∧
      (∃ place, site'.disk.place? (out.resolved.plan.root.push metadataName) = some place ∧
        site'.disk.tree.at? place = some (.file (Fetch.metadataText out.resolved m.now)) ∧
        ∀ l, site''.disk.tree.at? l = if l = place then some (.file (Fetch.metadataText out.resolved later))
          else site'.disk.tree.at? l) ∧
      again.report.accepted = ∅ ∧ again.report.componentChanges = [] ∧
      (job.acceptFirst = true → job.isPersonal = false → s.makesBaselines = true →
        out.report.baselineName = some (s.baselineName (s.baselines + 1)) ∧
        again.report.baselineName = some (s.baselineName (s.baselines + 1 + 1))) := by
  have distinct := reachable.distinctWorkspaces
  obtain ⟨files, given, named, stores⟩ := Fetch.run_stores distinct done
  have resolves : Fetch.Resolves m job site.server out.resolved := by
    obtain ⟨r, s₁, s₂, taken, s₃, paths, resolved, -, -, -, rfl⟩ := Fetch.run_eq_ok done
    exact (Fetch.resolve_eq_ok resolved).1
  have given' : s.filesFor out.resolved.plan.request = .ok files := by
    obtain ⟨t, owner', chosen⟩ := Fetch.filesFor_eq_ok (Prod.ext given rfl)
    obtain rfl : t = s := Except.ok.inj (owner'.symm.trans owner)
    exact chosen
  -- what the first run stored can be stored again
  obtain ⟨root, paths⟩ := Fetch.forward_of_job resolves owner forward given'
  obtain ⟨e, stores', left⟩ := Fetch.stores_again linkless root paths stores
  have lasts := Fetch.lasting_of_run distinct done
  have spares' : out.resolved.configuration.deleteFirst = true → m.Spares out.resolved.plan.root site'.disk := by
    rw [resolves.configuration, job.deleteFirst_forRun]
    exact spares
  obtain ⟨again, site'', done', same, files', rfl⟩ :=
    Fetch.run_of_stores later distinct done lasts spares' given stores'
  refine ⟨again, site'', done', same, files'.trans named.symm, left, ?_⟩
  -- the first accept took all that was pending of the plan
  cases accepts : job.acceptFirst with
  | false =>
    obtain ⟨workspace, personal, report⟩ := Fetch.report_of_skipped accepts done'
    obtain ⟨none, none'⟩ := ChangeReport.ofOutcome_nothing (o := {}) rfl rfl workspace personal
    rw [report]
    exact ⟨none, none', nofun⟩
  | true =>
    obtain ⟨s₁, id, -, owner₁, after, report, -⟩ := Fetch.run_accepts distinct accepts done
    obtain rfl : s₁ = s := Except.ok.inj (owner₁.symm.trans owner)
    obtain ⟨s₂, id', -, owner₂, -, report', -⟩ :=
      Fetch.run_accepts (Repository.distinctWorkspaces_of_lasting lasts distinct) accepts done'
    rw [same] at owner₂ report'
    obtain rfl := Except.ok.inj (owner₂.symm.trans after)
    obtain ⟨nothing, nothing'⟩ := s₁.accept_again_nothing out.resolved.plan.ids id id' out.resolved.plan.request
    obtain ⟨none, none'⟩ := ChangeReport.ofOutcome_nothing nothing nothing' out.resolved.source.workspace job.isPersonal
    rw [report', report]
    refine ⟨none, none', fun _ shared makes => ?_⟩
    rw [shared]
    obtain ⟨first, makes', count⟩ := s₁.baselineName_accept out.resolved.plan.ids id out.resolved.plan.request makes
      out.resolved.source.workspace
    obtain ⟨second, -, -⟩ := (s₁.accept out.resolved.plan.ids id).2.baselineName_accept out.resolved.plan.ids id'
      out.resolved.plan.request makes' out.resolved.source.workspace
    refine ⟨first, second.trans ?_⟩
    rw [count]
    rfl

/-- An hour later the destination, which was emptied and loaded, is emptied and loaded again. -/
theorem run_again_out : ∃ start out site' again site'', Repository.ofFixture noonOfMay ⟨[], 0, []⟩ oneFile = .ok start ∧
    Fetch.run workMachine (emptyInto "out") { server := start, disk := staleDisk } = (.ok out, site') ∧
    Fetch.run { workMachine with now := { noonOfMay with hour := 13 } } (emptyInto "out") site' = (.ok again, site'') ∧
    out.files.map (·.text) = ["/work/out/a.txt"] ∧ again.files = out.files ∧
    site''.disk.tree.at? ["work", "out", "a.txt"] = some (.file "fresh") ∧
    out.report.baselineName = some "ws build #1" ∧ again.report.baselineName = some "ws build #2" := by
  have ok : comesTo oneFile workMachine (emptyInto "out") staleDisk (fun start out site' =>
      (start.sourceOf out.resolved.source).toOption.any (fun s => s.name == "ws" && s.baselines == 0 &&
        s.makesBaselines && s.components.all fun c => c.files.toList.all fun f => decide (Path.Forward ⟨f.1⟩)) &&
      site'.disk.place? (out.resolved.plan.root.push metadataName) == some ["work", "out", ".buildfetch.json"] &&
      site'.disk.tree.at? ["work", "out", "a.txt"] == some (.file "fresh") &&
      out.files.map (·.text) == ["/work/out/a.txt"]) = true := by
    decide +kernel
  obtain ⟨start, out, site', built, ran, facts⟩ := of_comesTo ok
  simp only [Bool.and_eq_true] at facts
  obtain ⟨⟨⟨known, placed⟩, fresh⟩, files⟩ := facts
  obtain ⟨s, found, known⟩ := (Option.any_eq_true _ _).1 known
  simp only [Bool.and_eq_true] at known
  obtain ⟨⟨⟨name, count⟩, makes⟩, paths⟩ := known
  have owner : start.sourceOf out.resolved.source = .ok s := by
    cases asked : start.sourceOf out.resolved.source with
    | error e =>
      rw [asked] at found
      cases found
    | ok t =>
      rw [asked] at found
      rw [Option.some.inj found]
  have linkless : staleDisk.tree.Linkless := Tree.linkless_of_entries (by decide)
  have forward : ForwardJob workMachine (emptyInto "out") s := by
    refine ⟨by decide, by decide, fun c stored f listed => ?_, nofun⟩
    exact of_decide_eq_true (List.all_eq_true.1 (List.all_eq_true.1 paths c stored) f listed)
  have reachable : ({ server := start, disk := staleDisk } : Site).server.Reachable := ⟨_, _, _, _, {}, [], built, rfl⟩
  obtain ⟨again, site'', ran', -, same, ⟨place, at_, -, left⟩, -, -, numbers⟩ :=
    run_again reachable linkless ran owner forward (fun _ _ _ => Hindrances.spares_none) { noonOfMay with hour := 13 }
  obtain rfl : place = ["work", "out", ".buildfetch.json"] := Option.some.inj (at_.symm.trans (eq_of_beq placed))
  obtain ⟨first, second⟩ := numbers rfl rfl makes
  have numbered : ∀ number, s.baselineName number = "ws build #" ++ Text.writeNat number.toNat := by
    intro number
    unfold Source.baselineName
    rw [eq_of_beq name]
    rfl
  refine ⟨start, out, site', again, site'', built, ran, ran', eq_of_beq files, same, ?_, ?_, ?_⟩
  · rw [left, if_neg (by decide)]
    exact eq_of_beq fresh
  · rw [first, numbered, eq_of_beq count]
    decide
  · rw [second, numbered, eq_of_beq count]
    decide

end SandboxFetch
