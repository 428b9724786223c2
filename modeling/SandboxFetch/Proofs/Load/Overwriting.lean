/-
  SandboxFetch.Proofs.Load.Overwriting — loads that are refused, and files that replace others.

  All that can be wrong with a request is found before anything is written (`Refused`), at whichever entry
  it is. A request that is not refused has its files written in the order of its entries, those of one entry
  in the order of the bytes of their paths (`LoadRequest.Lists`). Where several paths lead to one place,
  the last one in that order is what is there afterwards, and what no path leads to is as before
  (`overwrites_of_load`).
-/

import SandboxFetch.Proofs.Load.Containment
import SandboxFetch.Proofs.Text.Utf8

namespace SandboxFetch

variable {site site' : Site} {h : SourceHandle} {request : LoadRequest} {result : Except RepositoryError LoadOutcome}
  {r r' : Repository} {s : Source} {fault : RepositoryError}

/-! ## Refused requests -/

inductive Refused (r : Repository) (h : SourceHandle) (request : LoadRequest) : RepositoryError → Prop
  | injected (fails : r.failing.contains Operation.load.key = true) :
      Refused r h request (.operationFailed .load .injected)
  | noSource (missing : ∀ s ∈ r.sources, s.workspace ≠ h.workspace) :
      Refused r h request (.sourceNotFound h.selection.kind h.selection.name)
  | outside {e : LoadEntry} (member : e ∈ request.entries) (leaves : e.target.startsWith request.root = false) :
      Refused r h request (.operationFailed .load (.outsideDestination e.target request.root))
  | noComponent {e : LoadEntry} {s : Source} (member : e ∈ request.entries) (found : r.sourceOf h = .ok s)
      (missing : s.component? e.component.id = none) : Refused r h request (.itemNotFound e.component.name "/")

theorem Source.filesFor_eq_error (failed : s.filesFor request = .error fault) :
    ∃ e ∈ request.entries, s.filesOf request.root e = .error fault := by
  unfold filesFor at failed
  cases each : request.entries.mapM (s.filesOf request.root) with
  | error e =>
    rw [each] at failed
    cases failed
    exact exists_of_mapM_eq_error each
  | ok lists =>
    rw [each] at failed
    cases failed

theorem Repository.sourceOf_eq_error (unknown : r.sourceOf h = .error fault) :
    (∀ s ∈ r.sources, s.workspace ≠ h.workspace) ∧ fault = .sourceNotFound h.selection.kind h.selection.name := by
  unfold sourceOf at unknown
  split at unknown
  · cases unknown
  · next none =>
    cases unknown
    exact ⟨by simpa using none, rfl⟩

/-- What the server answers instead of files is a reason to refuse. -/
theorem refused_of_filesFor (failed : Repository.filesFor h request r = (.error fault, r')) :
    Refused r h request fault := by
  rw [Repository.filesFor_eq, Repository.asking_apply, Repository.sourceOf_logged] at failed
  have answer := congrArg Prod.fst failed
  dsimp only at answer
  -- the reasons in the order in which the server looks for them
  by_cases fails : r.failing.contains Operation.load.key = true
  · rw [if_pos fails] at answer
    cases answer
    exact .injected fails
  rw [if_neg fails] at answer
  cases found : r.sourceOf h with
  | error unknown =>
    rw [found] at answer
    obtain ⟨missing, rfl⟩ := Repository.sourceOf_eq_error found
    cases answer
    exact .noSource missing
  | ok s =>
    rw [found] at answer
    obtain ⟨e, member, denied⟩ := Source.filesFor_eq_error answer
    unfold Source.filesOf at denied
    split at denied
    · next leaves =>
      cases denied
      exact .outside member (by simpa using leaves)
    · split at denied
      · next missing =>
        cases denied
        exact .noComponent member found missing
      · cases denied

theorem not_granted_of_refused (refused : Refused r h request fault) : ¬ Granted r h request := by
  rintro ⟨free, s, found, each⟩
  cases refused with
  | injected fails =>
    rw [fails] at free
    cases free
  | noSource missing =>
    obtain ⟨there, same⟩ := Repository.sourceOf_eq_ok found
    exact missing s there same
  | outside member leaves =>
    rw [(each _ member).1] at leaves
    cases leaves
  | noComponent member found' missing =>
    rw [found] at found'
    cases found'
    have there := (each _ member).2
    rw [missing] at there
    cases there

/-! ## Files in order -/

/-- The files of a component that an entry takes in, in the order of the bytes of their paths. -/
structure LoadEntry.Takes (e : LoadEntry) (c : StoredComponent) (files : List (String × String)) : Prop where
  exact : ∀ path content, (path, content) ∈ files ↔ c.files.get? path = some content ∧ e.scope.includes path = true
  ordered : files.Pairwise fun a b => textBytes a.1 < textBytes b.1

theorem LoadEntry.takes_filter (e : LoadEntry) (c : StoredComponent) :
    e.Takes c (c.files.toList.filter fun f => e.scope.includes f.1) where
  exact path content := by
    rw [List.mem_filter, Dict.get?_eq_some_iff]
    rfl
  ordered := (c.files.sorted.imp fun before => textBytes_lt_iff.2 before).filter _

/-- The files of a request, each behind the target of its entry, entry by entry. -/
def LoadRequest.Lists (s : Source) (request : LoadRequest) (files : List (Path × String)) : Prop :=
  ∃ parts, List.Forall₂ (fun e part => ∃ c taken, s.component? e.component.id = some c ∧ e.Takes c taken ∧
    part = taken.map fun f => (e.target.push ⟨f.1⟩, f.2)) request.entries parts ∧ files = parts.flatten

theorem lists_of_filesFor {files : List (Path × String)} (given : s.filesFor request = .ok files) :
    request.Lists s files := by
  obtain ⟨parts, answers, rfl⟩ := Source.filesFor_iff.1 given
  refine ⟨parts, answers.imp fun e part answer => ?_, rfl⟩
  obtain ⟨-, c, found, rfl⟩ := Source.filesOf_iff.1 answer
  exact ⟨c, _, found, e.takes_filter c, rfl⟩

/-! ## The last file at a place -/

structure Disk.Replaced (files : List (Path × String)) (d d' : Disk) : Prop where
  /-- Each path leads to a place: without links, the one that it has by its text. -/
  placed : ∀ f ∈ files, ∃ l, d'.place? f.1 = some l ∧ (d.tree.Linkless → l = f.1.lexical d.here)
  /-- There is what the last file has that leads there. -/
  last : ∀ before p content after l, files = before ++ (p, content) :: after → d'.place? p = some l →
    (∀ f ∈ after, d'.place? f.1 ≠ some l) → d'.tree.at? l = some (.file content)
  /-- A file that none leads to keeps its content, -/
  kept : ∀ l content, (∀ f ∈ files, d'.place? f.1 ≠ some l) → d.tree.at? l = some (.file content) →
    d'.tree.at? l = some (.file content)
  /-- and nothing else is different there but for new directories around the files. -/
  others : ∀ l, (∀ f ∈ files, d'.place? f.1 ≠ some l) → d'.tree.at? l = d.tree.at? l ∨
    d.tree.at? l = none ∧ d'.tree.at? l = some .directory ∧
      ∃ f ∈ files, ∃ p ∈ enclosing f.1.steps, d'.place? p = some l

namespace Disk

variable {d d' : Disk} {files before after : List (Path × String)} {p : Path} {content : String} {l : Location}

theorem lastAt_eq_none (free : ∀ f ∈ files, d.place? f.1 ≠ some l) : d.lastAt files l = none := by
  have none : (files.filter fun f => d.place? f.1 = some l) = [] := by simpa using free
  unfold lastAt
  rw [none]
  rfl

theorem lastAt_of_last (leads : d.place? p = some l) (free : ∀ f ∈ after, d.place? f.1 ≠ some l) :
    d.lastAt (before ++ (p, content) :: after) l = some content := by
  rw [lastAt_append, ← List.singleton_append, lastAt_append, lastAt_eq_none free, lastAt_single leads, if_pos rfl]
  rfl

theorem replaced_of_writeAll (done : writeAll files d = (.ok (), d')) : Replaced files d d' := by
  have wrote := wrote_of_writeAll done
  have touched := touched_of_writeAll files d
  rw [done] at touched
  refine ⟨?_, ?_, ?_, ?_⟩
  · intro f member
    obtain ⟨l, leads⟩ := wrote.reached f member
    refine ⟨l, leads, fun linkless => ?_⟩
    rw [← wrote.here]
    exact (eq_lexical_of_place? (touched.linkless linkless) leads).symm
  · rintro before p content after l rfl leads free
    exact wrote.written l content (lastAt_of_last leads free)
  · intro l content free there
    rcases wrote.elsewhere l (lastAt_eq_none free) with kept | ⟨empty, -⟩
    · rw [kept, there]
    · rw [there] at empty
      cases empty
  · intro l free
    refine (wrote.elsewhere l (lastAt_eq_none free)).imp_right fun ⟨empty, made, p, around, leads⟩ => ?_
    obtain ⟨f, member, around⟩ := List.mem_flatMap.1 around
    exact ⟨empty, made, f, member, p, around, leads⟩

end Disk

/-! ## Loads -/

structure Overwrites (h : SourceHandle) (request : LoadRequest) (site site' : Site)
    (result : Except RepositoryError LoadOutcome) : Prop where
  /-- A reason to refuse the request, at any of its entries, refuses it before anything is written. -/
  refuses : ∀ cause, Refused site.server h request cause →
    (∃ fault, result = .error fault ∧ Refused site.server h request fault) ∧ site'.disk = site.disk
  /-- Without one, only the disk can stop the load. -/
  answers : (∀ cause, ¬ Refused site.server h request cause) →
    (∃ out, result = .ok out) ∨ ∃ fault, result = .error (.disk fault)
  /-- A load that succeeds has written the listed files, in order. -/
  writes : ∀ out, result = .ok out → ∃ s files, site.server.sourceOf h = .ok s ∧ request.Lists s files ∧
    out.files = files.map (·.1) ∧ Disk.Replaced files site.disk site'.disk

theorem overwrites_of_load (ran : Site.load h request site = (result, site')) :
    Overwrites h request site site' result := by
  rcases Site.load_cases ran with ⟨⟨fault, server, refused, rfl⟩, same⟩ | ⟨files, server, answer, -, ended⟩
  · have cause := refused_of_filesFor refused
    exact ⟨fun _ _ => ⟨⟨fault, rfl, cause⟩, same⟩, fun none => absurd cause (none fault), fun _ => nofun⟩
  · have granted : Granted site.server h request := granted_iff.2 ⟨files, congrArg Prod.fst answer⟩
    refine ⟨fun _ cause => absurd granted (not_granted_of_refused cause), fun _ => ?_, fun out done => ?_⟩
    · exact ended.imp_left fun ⟨_, ok⟩ => ⟨_, ok⟩
    · obtain ⟨s, found, given⟩ := Fetch.filesFor_eq_ok answer
      rcases ended with ⟨wrote, ok⟩ | ⟨fault, failed⟩
      · rw [ok] at done
        cases done
        exact ⟨s, files, found, lists_of_filesFor given, rfl, Disk.replaced_of_writeAll wrote⟩
      · rw [failed] at done
        cases done

/-! ## Two components with the same file -/

def holdingTwice : RepositoryFixture where
  version := ⟨[6, 0, 6]⟩
  sources := [{
    kind := .workspace
    name := "ws"
    components := [
      ⟨some "_core", "core", Dict.ofList [("lib/a.txt", "of core")]⟩,
      ⟨some "_util", "util", Dict.ofList [("lib/a.txt", "of util")]⟩]
    pending := []
    componentChanges := [] }]

def intoOne : LoadRequest := {
  root := "/work"
  entries := [⟨⟨"_core", "core"⟩, .full, "/work/out"⟩, ⟨⟨"_util", "util"⟩, .paths ["lib/"], "/work/out"⟩] }

theorem overwrites_of_load_twice : ∃ start h site out site',
    Repository.ofFixture noonOfMay ⟨[], 0, []⟩ holdingTwice = .ok start ∧
    Site.onServer (Repository.resolveSource ⟨.workspace, "ws"⟩) { server := start } = (.ok h, site) ∧
    Site.load h intoOne site = (.ok out, site') ∧
    out.files = [⟨"/work/out/lib/a.txt"⟩, ⟨"/work/out/lib/a.txt"⟩] ∧
    site'.disk.tree.at? ["work", "out", "lib", "a.txt"] = some (.file "of util") ∧
    Overwrites h intoOne site site' (.ok out) := by
  have ok : loadComesTo holdingTwice intoOne (fun out disk =>
      out.files = [⟨"/work/out/lib/a.txt"⟩, ⟨"/work/out/lib/a.txt"⟩] &&
        disk.tree.at? ["work", "out", "lib", "a.txt"] == some (.file "of util")) = true := by
    decide +kernel
  obtain ⟨start, h, site, out, site', built, resolved, ran, facts⟩ := of_loadComesTo ok
  obtain ⟨told, last⟩ := Bool.and_eq_true_iff.1 facts
  exact ⟨start, h, site, out, site', built, resolved, ran, of_decide_eq_true told, eq_of_beq last,
    overwrites_of_load ran⟩

end SandboxFetch
