/-
  SandboxFetch.Proofs.Load.Containment — what a load writes, and where.

  A load of a request writes the files of the requested components, each behind the target of its
  component, and makes the directories around them that are missing. A request is granted or refused
  before anything is written (`Granted`). Each target has to begin with the destination, but neither
  the rest of a target nor the path of a file is looked at. So a load is confined to its destination as
  long as what it writes only goes down from there (`loads_of_load`), and a file whose path has enough
  `..` is written beside it (`not_confined_climbing`).
-/

import SandboxFetch.Proofs.Disk.Touching
import SandboxFetch.Proofs.Fetch.Stages
import SandboxFetch.Proofs.Load.Forward
import SandboxFetch.Proofs.Repository.Lasting

namespace SandboxFetch

open SandboxFetch.Path (Inside StaysBelow)

variable {site site' : Site} {h : SourceHandle} {request : LoadRequest} {result : Except RepositoryError LoadOutcome}

/-! ## Requested paths -/

/-- A path that a file of the source is to be written to: the target of its component, and its path
    there. -/
def Requested (r : Repository) (h : SourceHandle) (request : LoadRequest) (p : Path) : Prop :=
  ∃ s, r.sourceOf h = .ok s ∧ ∃ e ∈ request.entries, ∃ c, s.component? e.component.id = some c ∧
    ∃ f ∈ c.files.toList, e.scope.includes f.1 = true ∧ p = e.target.push ⟨f.1⟩

/-- A source gives out the requested files and no others. -/
theorem Source.mem_filesFor {s : Source} {files : List (Path × String)} (given : s.filesFor request = .ok files)
    (p : Path) : p ∈ files.map (·.1) ↔ ∃ e ∈ request.entries, ∃ c, s.component? e.component.id = some c ∧
      ∃ f ∈ c.files.toList, e.scope.includes f.1 = true ∧ p = e.target.push ⟨f.1⟩ := by
  obtain ⟨lists, answers, rfl⟩ := filesFor_iff.1 given
  constructor
  · intro member
    obtain ⟨g, given, rfl⟩ := List.mem_map.1 member
    obtain ⟨list, among, member⟩ := List.mem_flatten.1 given
    obtain ⟨e, requested, answer⟩ := exists_of_mem_right answers among
    obtain ⟨-, c, found, rfl⟩ := filesOf_iff.1 answer
    obtain ⟨f, wanted, rfl⟩ := List.mem_map.1 member
    obtain ⟨stored, included⟩ := List.mem_filter.1 wanted
    exact ⟨e, requested, c, found, f, stored, included, rfl⟩
  · rintro ⟨e, requested, c, found, f, stored, included, rfl⟩
    obtain ⟨list, among, answer⟩ := exists_of_mem_right answers.flip requested
    obtain ⟨-, c', found', rfl⟩ := filesOf_iff.1 answer
    obtain rfl : c = c' := Option.some.inj (found.symm.trans found')
    refine List.mem_map.2 ⟨(e.target.push ⟨f.1⟩, f.2), List.mem_flatten.2 ⟨_, among, ?_⟩, rfl⟩
    exact List.mem_map.2 ⟨f, List.mem_filter.2 ⟨stored, included⟩, rfl⟩

/-- The files that the server gives out for a request are the requested ones. -/
theorem requested_iff {r r' : Repository} {files : List (Path × String)}
    (answer : Repository.filesFor h request r = (.ok files, r')) (p : Path) :
    p ∈ files.map (·.1) ↔ Requested r h request p := by
  obtain ⟨s, found, given⟩ := Fetch.filesFor_eq_ok answer
  rw [Source.mem_filesFor given]
  constructor
  · intro asked
    exact ⟨s, found, asked⟩
  · rintro ⟨s', found', asked⟩
    rw [found] at found'
    cases found'
    exact asked

/-! ## Granted requests -/

/-- A source gives out files when all targets begin with the destination and all components are there. -/
theorem Source.filesFor_ok_iff {s : Source} : (∃ files, s.filesFor request = .ok files) ↔
    ∀ e ∈ request.entries, e.target.startsWith request.root = true ∧ (s.component? e.component.id).isSome = true := by
  constructor
  · rintro ⟨files, given⟩ e requested
    obtain ⟨lists, answers, -⟩ := filesFor_iff.1 given
    obtain ⟨list, -, answer⟩ := exists_of_mem_right answers.flip requested
    obtain ⟨begins, c, found, -⟩ := filesOf_iff.1 answer
    exact ⟨begins, by rw [found]; rfl⟩
  · intro each
    have answer : ∀ e ∈ request.entries, ∃ list, s.filesOf request.root e = .ok list := by
      intro e requested
      obtain ⟨begins, there⟩ := each e requested
      obtain ⟨c, found⟩ := Option.isSome_iff_exists.1 there
      exact ⟨_, filesOf_iff.2 ⟨begins, c, found, rfl⟩⟩
    obtain ⟨lists, answers⟩ := exists_forall₂ answer
    exact ⟨_, filesFor_iff.2 ⟨lists, answers, rfl⟩⟩

/-- A request that the server gives out files for: it was not told to fail, it has the source, and all
    targets begin with the destination and all components are there. -/
def Granted (r : Repository) (h : SourceHandle) (request : LoadRequest) : Prop :=
  r.failing.contains Operation.load.key = false ∧ ∃ s, r.sourceOf h = .ok s ∧
    ∀ e ∈ request.entries, e.target.startsWith request.root = true ∧ (s.component? e.component.id).isSome = true

theorem granted_iff {r : Repository} : Granted r h request ↔ ∃ files, (Repository.filesFor h request r).1 = .ok files := by
  rw [Repository.filesFor_eq, Repository.asking_apply, Repository.sourceOf_logged]
  unfold Granted
  cases r.failing.contains Operation.load.key with
  | true => simp
  | false =>
    cases r.sourceOf h with
    | error e => simp [Except.bind]
    | ok s => simp [Except.bind, ← Source.filesFor_ok_iff]

/-! ## Loads -/

/-- A load either gets no files from the server and leaves the disk alone, or it writes the files that
    it gets, as far as they can be written. -/
theorem Site.load_cases (ran : Site.load h request site = (result, site')) :
    (∃ fault server, Repository.filesFor h request site.server = (.error fault, server) ∧ result = .error fault) ∧
        site'.disk = site.disk ∨
      ∃ files server, Repository.filesFor h request site.server = (.ok files, server) ∧
        site'.disk = (Disk.writeAll files site.disk).2 ∧
        (Disk.writeAll files site.disk = (.ok (), site'.disk) ∧ result = .ok ⟨files.map (·.1)⟩ ∨
          ∃ fault, result = .error (.disk fault)) := by
  unfold Site.load at ran
  cases result with
  | ok out =>
    obtain ⟨files, mid, asked, writing⟩ := bind_eq_ok.1 ran
    obtain ⟨server, answer, rfl⟩ := onServer_eq.1 asked
    obtain ⟨⟨⟩, last, wrote, answered⟩ := bind_eq_ok.1 writing
    obtain ⟨disk, done, rfl⟩ := onDisk_eq.1 (adapt_eq_ok.1 wrote)
    cases answered
    exact .inr ⟨files, server, answer, (congrArg Prod.snd done).symm, .inl ⟨done, rfl⟩⟩
  | error fault =>
    rcases bind_eq_error.1 ran with refused | ⟨files, mid, asked, writing⟩
    · obtain ⟨server, answer, rfl⟩ := onServer_eq.1 refused
      exact .inl ⟨⟨fault, server, answer, rfl⟩, rfl⟩
    · obtain ⟨server, answer, rfl⟩ := onServer_eq.1 asked
      rcases bind_eq_error.1 writing with failed | ⟨⟨⟩, last, -, answered⟩
      · obtain ⟨reason, stopped, rfl⟩ := adapt_eq_error.1 failed
        obtain ⟨disk, done, rfl⟩ := onDisk_eq.1 stopped
        exact .inr ⟨files, server, answer, (congrArg Prod.snd done).symm, .inr ⟨reason, rfl⟩⟩
      · cases answered

structure Loads (h : SourceHandle) (request : LoadRequest) (site site' : Site)
    (result : Except RepositoryError LoadOutcome) : Prop where
  /-- A request that is not granted fails, and nothing is written. -/
  refuses : ¬ Granted site.server h request → (∃ fault, result = .error fault) ∧ site'.disk = site.disk
  /-- Only the disk can stop one that is. -/
  answers : Granted site.server h request → (∃ out, result = .ok out) ∨ ∃ fault, result = .error (.disk fault)
  /-- A load that succeeds tells the requested paths, and no others. -/
  tells : ∀ out, result = .ok out → ∀ p, p ∈ out.files ↔ Requested site.server h request p
  /-- Each of them leads to a file: without links, the one at the place that it has by its text. -/
  lands : ∀ out, result = .ok out → ∀ p ∈ out.files, ∃ l content, site'.disk.place? p = some l ∧
    site'.disk.tree.at? l = some (.file content) ∧ (site.disk.tree.Linkless → p.lexical site.disk.here = l)
  /-- Whatever is different, also after a failure, is a requested file or a directory around one. -/
  touches : ∃ files : List Path, (∀ p ∈ files, Requested site.server h request p) ∧
    Disk.Touched (files.flatMap fun p => Disk.enclosing p.steps) files site.disk site'.disk
  /-- Requested paths that only go down from the destination keep the load inside it. -/
  confined : (∀ p, Requested site.server h request p → StaysBelow request.root p) →
    Disk.Confined request.root site.disk site'.disk ∧
      ∀ out, result = .ok out → ∀ p ∈ out.files, Inside request.root p

theorem loads_of_load (ran : Site.load h request site = (result, site')) : Loads h request site site' result := by
  rcases Site.load_cases ran with ⟨⟨fault, server, refused, rfl⟩, same⟩ | ⟨files, server, answer, written, ended⟩
  · refine ⟨fun _ => ⟨⟨fault, rfl⟩, same⟩, ?_, fun _ => nofun, fun _ => nofun, ⟨[], fun _ => nofun, ?_⟩,
      fun _ => ⟨?_, fun _ => nofun⟩⟩
    · intro granted
      obtain ⟨files, given⟩ := granted_iff.1 granted
      rw [refused] at given
      cases given
    · rw [same]
      exact .refl _
    · intro l other
      rw [same] at other
      exact absurd rfl other
  · have requested := requested_iff answer
    have touched := Disk.touched_of_writeAll files site.disk
    rw [← written] at touched
    -- a load that succeeds wrote all of the files
    have told : ∀ out, result = .ok out →
        out.files = files.map (·.1) ∧ Disk.writeAll files site.disk = (.ok (), site'.disk) := by
      intro out done
      rcases ended with ⟨wrote, ok⟩ | ⟨fault, failed⟩
      · rw [ok] at done
        cases done
        exact ⟨rfl, wrote⟩
      · rw [failed] at done
        cases done
    refine ⟨?_, ?_, ?_, ?_, ⟨_, fun p => (requested p).1, touched⟩, fun below => ⟨?_, ?_⟩⟩
    · intro denied
      exact absurd (granted_iff.2 ⟨files, congrArg Prod.fst answer⟩) denied
    · exact fun _ => ended.imp_left fun ⟨_, ok⟩ => ⟨_, ok⟩
    · intro out done p
      rw [(told out done).1, requested]
    · intro out done p member
      obtain ⟨named, wrote⟩ := told out done
      rw [named] at member
      obtain ⟨f, given, rfl⟩ := List.mem_map.1 member
      obtain ⟨l, content, leads, file⟩ := (Disk.wrote_of_writeAll wrote).holds given
      refine ⟨l, content, leads, file, fun linkless => ?_⟩
      rw [← touched.here]
      exact Disk.eq_lexical_of_place? (touched.linkless linkless) leads
    · exact touched.confined fun p member => below p ((requested p).1 member)
    · intro out done p member
      rw [(told out done).1, requested] at member
      exact (below p member).inside

/-! ## A load that stays, and one that does not -/

def holding (path : String) : RepositoryFixture where
  version := ⟨[6, 0, 6]⟩
  sources := [{
    kind := .workspace
    name := "ws"
    components := [⟨some "_core", "core", Dict.ofList [(path, "fresh")]⟩]
    pending := []
    componentChanges := [] }]

def intoCore : LoadRequest := { root := "/work/out", entries := [⟨⟨"_core", "core"⟩, .full, "/work/out/core"⟩] }

def loadComesTo (fixture : RepositoryFixture) (request : LoadRequest) (p : LoadOutcome → Disk → Bool) : Bool :=
  match Repository.ofFixture noonOfMay ⟨[], 0, []⟩ fixture with
  | .error _ => false
  | .ok start =>
    match Site.onServer (Repository.resolveSource ⟨.workspace, "ws"⟩) { server := start } with
    | (.error _, _) => false
    | (.ok h, site) =>
      match Site.load h request site with
      | (.error _, _) => false
      | (.ok out, site') => p out site'.disk

theorem of_loadComesTo {fixture : RepositoryFixture} {p : LoadOutcome → Disk → Bool}
    (ok : loadComesTo fixture request p = true) : ∃ start h site out site',
      Repository.ofFixture noonOfMay ⟨[], 0, []⟩ fixture = .ok start ∧
      Site.onServer (Repository.resolveSource ⟨.workspace, "ws"⟩) { server := start } = (.ok h, site) ∧
      Site.load h request site = (.ok out, site') ∧ p out site'.disk = true := by
  unfold loadComesTo at ok
  split at ok
  · cases ok
  · next start built =>
    split at ok
    · cases ok
    · next h site resolved =>
      split at ok
      · cases ok
      · next out site' ran => exact ⟨start, h, site, out, site', built, resolved, ran, ok⟩

theorem loads_of_load_below : ∃ start h site out site',
    Repository.ofFixture noonOfMay ⟨[], 0, []⟩ (holding "src/../a.txt") = .ok start ∧
    Site.onServer (Repository.resolveSource ⟨.workspace, "ws"⟩) { server := start } = (.ok h, site) ∧
    Site.load h intoCore site = (.ok out, site') ∧ out.files = [⟨"/work/out/core/src/../a.txt"⟩] ∧
    Disk.Confined "/work/out" site.disk site'.disk ∧ ∀ p ∈ out.files, Inside "/work/out" p := by
  have ok : loadComesTo (holding "src/../a.txt") intoCore
      (fun out _ => out.files = [⟨"/work/out/core/src/../a.txt"⟩]) = true := by
    decide +kernel
  obtain ⟨start, h, site, out, site', built, resolved, ran, told⟩ := of_loadComesTo ok
  have files := of_decide_eq_true told
  have loads := loads_of_load ran
  have below : ∀ p, Requested site.server h intoCore p → StaysBelow intoCore.root p := by
    intro p requested
    rw [← loads.tells out rfl, files, List.mem_singleton] at requested
    have stays : StaysBelow "/work/out" (Path.push "/work/out/core" "src/../a.txt") :=
      Path.staysBelow_push (by decide) (by decide) (by decide) (by decide)
    subst requested
    exact stays
  obtain ⟨confined, inside⟩ := loads.confined below
  exact ⟨start, h, site, out, site', built, resolved, ran, files, confined, inside out rfl⟩

/-- The target begins with the destination, and the path of the file leaves both. -/
theorem not_confined_climbing : ∃ start h site out site',
    Repository.ofFixture noonOfMay ⟨[], 0, []⟩ (holding "../../escape.txt") = .ok start ∧
    Site.onServer (Repository.resolveSource ⟨.workspace, "ws"⟩) { server := start } = (.ok h, site) ∧
    Site.load h intoCore site = (.ok out, site') ∧
    site'.disk.tree.at? ["work", "escape.txt"] = some (.file "fresh") ∧
    (∃ p ∈ out.files, ¬ Inside "/work/out" p) ∧ ¬ Disk.Confined "/work/out" site.disk site'.disk := by
  have ok : loadComesTo (holding "../../escape.txt") intoCore (fun out disk =>
      out.files = [⟨"/work/out/core/../../escape.txt"⟩] &&
        disk.tree.at? ["work", "escape.txt"] == some (.file "fresh")) = true := by
    decide +kernel
  obtain ⟨start, h, site, out, site', built, resolved, ran, facts⟩ := of_loadComesTo ok
  obtain ⟨told, escaped⟩ := Bool.and_eq_true_iff.1 facts
  obtain ⟨server, -, rfl⟩ := Site.onServer_eq.1 resolved
  have there := eq_of_beq escaped
  refine ⟨start, h, _, out, site', built, resolved, ran, there, ⟨⟨"/work/out/core/../../escape.txt"⟩, ?_, ?_⟩, ?_⟩
  · rw [of_decide_eq_true told]
    exact List.mem_singleton_self _
  · intro inside
    exact absurd (inside []) (by decide +kernel)
  · intro confined
    obtain ⟨q, -, place, inside | ⟨-, -, made⟩⟩ := confined ["work", "escape.txt"] (by rw [there]; nofun)
    · have linkless : Tree.Linkless default := by
        intro l target link
        cases l <;> cases link
      have below := inside []
      rw [place linkless] at below
      exact absurd below (by decide +kernel)
    · rw [there] at made
      cases made

/-- A target that climbs from the destination begins with it, too. -/
example : Path.startsWith "/work/out/../other" "/work/out" = true ∧
    Path.lexical [] "/work/out/../other" = ["work", "other"] := by
  decide +kernel

end SandboxFetch
