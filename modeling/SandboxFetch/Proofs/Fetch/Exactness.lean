/-
  SandboxFetch.Proofs.Fetch.Exactness — what is on the disk after a run that empties its destination.

  The files that such a run leaves are those that the configuration asks for and the metadata. Each is
  where its path leads, with the content of the last one that leads there, and everywhere else the
  disk is as it was, except for new directories on the way and for what was below the destination
  when the run began (`run_leaves`). Below the destination this is nothing but the files and the
  directories on the way to them (`Exactly`), unless the destination has a `..` and names another
  directory by the time it is loaded into (`not_exactly_throughMissing`).
-/

import SandboxFetch.Proofs.Disk.Making
import SandboxFetch.Proofs.Fetch.Accounting
import SandboxFetch.Proofs.Fetch.Lasting
import SandboxFetch.Proofs.Load.Listing

namespace SandboxFetch

open Disk (Wrote)

/-! ## What a run leaves -/

namespace Disk

/-- Each of some files is where its path leads, with the content of the last one that leads there. -/
structure Holds (d : Disk) (files : List (Path × String)) : Prop where
  reached : ∀ f ∈ files, ∃ l, d.place? f.1 = some l
  written : ∀ l content, d.lastAt files l = some content → d.tree.at? l = some (.file content)

def isUnder (d : Disk) (root : Path) (l : Location) : Bool := (d.place? root).any fun top => l.isBelow top

theorem isUnder_iff {d : Disk} {root : Path} {l : Location} :
    d.isUnder root l = true ↔ ∃ top, d.place? root = some top ∧ l.isBelow top = true := by
  unfold isUnder
  cases d.place? root <;> simp

end Disk

def onTheWay (root : Path) (files : List (Path × String)) : List Path :=
  root :: Disk.enclosing root.steps ++ files.flatMap fun f => Disk.enclosing f.1.steps

/-- The files that a run leaves, the metadata last. -/
def filesLeft (m : Machine) (job : Configuration) (r : ResolvedFetch) (rules : RuleTable)
    (components : List StoredComponent) : List (Path × String) :=
  listing job.forRun rules r.plan.root components ++
    [(r.plan.root.push ⟨metadataName⟩, Fetch.metadataText r m.now)]

/-- A destination holds some files and the directories on the way to them, and nothing else. -/
structure Exactly (root : Path) (files : List (Path × String)) (d : Disk) : Prop where
  holds : d.Holds files
  there : d.isDirectory root = true
  nothingElse : ∀ l n, d.isUnder root l = true → d.tree.at? l = some n → d.lastAt files l = none →
    n = .directory ∧ ∃ p ∈ onTheWay root files, d.place? p = some l

/-- How a run that empties its destination changes the disk. It leaves some files; everywhere else it
    only takes away what was below the destination, and makes directories on the way. The destination
    holds nothing else when it is the directory that it was before, when nothing was there, and
    whenever it has no `..`. -/
structure Leaves (root : Path) (files : List (Path × String)) (before after : Disk) : Prop where
  holds : after.Holds files
  elsewhere : ∀ l, after.lastAt files l = none →
    after.tree.at? l = (if before.isUnder root l then none else before.tree.at? l) ∨
    after.tree.at? l = some .directory ∧ ∃ p ∈ onTheWay root files, after.place? p = some l
  there : root.isEmpty = false → after.isDirectory root = true
  exactly : root.isEmpty = false →
    after.place? root = before.place? root ∨ (∀ top, after.place? root = some top → before.tree.at? top = none) ∨
      Path.Step.parent ∉ root.steps →
    Exactly root files after

/-! ## Stages on the disk -/

namespace Fetch

variable {d d' : Disk} {root : Path} {l : Location}

theorem isDirectory_of_status (h : d.status root = .ok .directory) : d.isDirectory root = true := by
  unfold Disk.isDirectory
  rw [h]

theorem not_isDirectory_of_status (h : d.status root = .ok .absent) : d.isDirectory root = false := by
  unfold Disk.isDirectory
  rw [h]

/-- Nothing is where a path leads that leads to nothing. -/
theorem place?_of_status (h : d.status root = .ok .absent) : d.place? root = none := by
  unfold Disk.status at h
  unfold Disk.place?
  cases located : d.locate root with
  | error fault => rfl
  | ok place =>
    cases place with
    | vacant l => rfl
    | found l =>
      rw [located] at h
      simp only at h
      split at h <;> cases h

/-- A path that a status is known of can be followed, unless it is empty. -/
theorem usable_of_status {status : Disk.Status} (inner : root.isEmpty = false) (h : d.status root = .ok status) :
    Disk.pathFault? root = none := by
  cases fault : Disk.pathFault? root with
  | none => rfl
  | some reason =>
    have located : d.locate root = .error reason := by
      unfold Disk.locate
      rw [fault]
    have told : reason ≠ .notFound := by
      unfold Disk.pathFault? at fault
      rw [if_neg (by simp [inner])] at fault
      split at fault
      · cases fault
        exact nofun
      · split at fault <;> cases fault
        exact nofun
    unfold Disk.status at h
    rw [located] at h
    cases reason <;> first | exact absurd rfl told | cases h

/-- Emptying takes away what is below the destination, and nothing else. -/
theorem at?_of_emptied (h : Emptied root d d') :
    d'.here = d.here ∧ ∀ l, d'.tree.at? l = if d.isUnder root l then none else d.tree.at? l := by
  rcases h with ⟨status, rfl⟩ | ⟨status, rfl⟩
  · obtain ⟨top, leads, directory⟩ := Disk.isDirectory_iff.1 (isDirectory_of_status status)
    have located := Disk.locate_of_place? leads
    have cleared : d.clear root = { d with tree := d.tree.clear top } := by
      unfold Disk.clear
      rw [located]
      exact if_pos directory
    refine ⟨by rw [cleared], fun l => ?_⟩
    rw [cleared, Disk.isUnder, leads]
    exact Tree.at?_clear _ _ _
  · refine ⟨rfl, fun l => ?_⟩
    have nowhere : d'.isUnder root l = false := by
      rw [Disk.isUnder, place?_of_status status]
      rfl
    rw [nowhere]
    rfl

theorem grows_of_emptied (h : Emptied root d d') : d'.tree.Grows d.tree := by
  rcases h with ⟨-, rfl⟩ | ⟨-, rfl⟩
  · unfold Disk.clear
    split
    · split
      · exact Tree.clear_grows _ _
      · exact .refl _
    · exact .refl _
  · exact .refl _

theorem wrote_of_ensured (h : Ensured root d d') : Wrote (root :: Disk.enclosing root.steps) [] d d' := by
  rcases h with ⟨-, rfl⟩ | ⟨-, made⟩
  · exact (Wrote.refl d').mono (List.nil_subset _)
  · exact Disk.wrote_of_makeDirectories made

theorem isDirectory_of_ensured (inner : root.isEmpty = false) (h : Ensured root d d') : d'.isDirectory root = true := by
  rcases h with ⟨status, rfl⟩ | ⟨status, made⟩
  · exact isDirectory_of_status status
  · unfold Disk.makeDirectories at made
    split at made
    · next outermost =>
      cases made
      exact Disk.isDirectory_of_outermost inner (by simpa using outermost) (usable_of_status inner status)
    · exact Disk.isDirectory_of_makeChain made

/-- A destination without `..` that had to be made is new. -/
theorem new_of_ensured (inner : root.isEmpty = false) (forward : Path.Step.parent ∉ root.steps)
    (status : d.status root = .ok .absent) (made : d.makeDirectories root = (.ok (), d')) :
    ∃ top, Disk.New d d' root top := by
  have missing := not_isDirectory_of_status status
  refine Disk.new_of_makeDirectories forward ?_ missing made
  intro outermost
  rw [Disk.isDirectory_of_outermost inner outermost (usable_of_status inner status)] at missing
  cases missing

/-- What was below a destination without `..` is gone by the time it is loaded into. -/
theorem cleared_of_forward {top : Location} {mid : Disk} (inner : root.isEmpty = false)
    (forward : Path.Step.parent ∉ root.steps) (emptied : Emptied root d mid) (ensured : Ensured root mid d')
    (leads : d'.place? root = some top) (below : l.isBelow top = true) : mid.tree.at? l = none := by
  rcases ensured with ⟨-, rfl⟩ | ⟨status, made⟩
  · obtain ⟨here, before⟩ := at?_of_emptied emptied
    have first : d.place? root = some top := Disk.place?_grow leads here.symm (grows_of_emptied emptied)
    rw [before, if_pos]
    rw [Disk.isUnder, first]
    exact below
  · obtain ⟨top', new⟩ := new_of_ensured inner forward status made
    obtain rfl : top' = top := Option.some.inj (new.leads.symm.trans leads)
    exact Tree.at?_below (Tree.not_directory new.free) below

/-- Emptying, making the destination and writing into it, taken together. -/
theorem leaves_of_loading {d d₁ d₂ d₃ d₄ : Disk} {files : List (Path × String)} {path : Path} {content : String}
    (emptied : Emptied root d d₁) (ensured : Ensured root d₁ d₂) (loaded : Disk.writeAll files d₂ = (.ok (), d₃))
    (last : d₃.write path content = .ok d₄) : Leaves root (files ++ [(path, content)]) d d₄ := by
  have later := (Disk.wrote_of_writeAll loaded).append (Disk.wrote_of_write last)
  have whole : Wrote (onTheWay root (files ++ [(path, content)])) (files ++ [(path, content)]) d₁ d₄ := by
    refine ((wrote_of_ensured ensured).append later).mono ?_
    unfold onTheWay
    rw [List.append_nil, List.flatMap_append]
    exact fun p member => by
      rcases List.mem_append.1 member with member | member
      · exact List.mem_append_left _ member
      · exact List.mem_append_right _ (List.mem_append_left _ member)
  obtain ⟨-, before⟩ := at?_of_emptied emptied
  have elsewhere : ∀ l, d₄.lastAt (files ++ [(path, content)]) l = none →
      d₄.tree.at? l = (if d.isUnder root l then none else d.tree.at? l) ∨
      d₄.tree.at? l = some .directory ∧ ∃ p ∈ onTheWay root (files ++ [(path, content)]), d₄.place? p = some l := by
    intro l unlisted
    rcases whole.elsewhere l unlisted with kept | ⟨-, made, way⟩
    · rw [kept, before]
      exact .inl rfl
    · exact .inr ⟨made, way⟩
  have there : root.isEmpty = false → d₄.isDirectory root = true := by
    intro inner
    obtain ⟨top, leads, directory⟩ := Disk.isDirectory_iff.1 (isDirectory_of_ensured inner ensured)
    exact Disk.isDirectory_iff.2 ⟨top, later.place? leads, later.grows.directory directory⟩
  refine ⟨⟨whole.reached, whole.written⟩, elsewhere, there, fun inner settled => ?_⟩
  refine ⟨⟨whole.reached, whole.written⟩, there inner, fun l n under found unlisted => ?_⟩
  rcases whole.elsewhere l unlisted with kept | ⟨-, made, way⟩
  · obtain ⟨top, leads, below⟩ := Disk.isUnder_iff.1 under
    -- the destination led here before, or there was no directory here, or it has no `..` and was emptied or is new
    have gone : d₁.tree.at? l = none := by
      rcases settled with same | free | forward
      · rw [before, if_pos]
        rw [Disk.isUnder, ← same]
        exact under
      · rw [before, Tree.at?_below (Tree.not_directory (free top leads)) below, ite_self]
      · obtain ⟨top', leads', -⟩ := Disk.isDirectory_iff.1 (isDirectory_of_ensured inner ensured)
        obtain rfl : top' = top := Option.some.inj ((later.place? leads').symm.trans leads)
        exact cleared_of_forward inner forward emptied ensured leads' below
    rw [kept, gone] at found
    cases found
  · rw [made] at found
    exact ⟨(Option.some.inj found).symm, way⟩

/-! ## The whole run -/

/-- Accepting leaves the disk and the components of the source as they are. -/
theorem accepting_eq_ok {r : ResolvedFetch} {site site' : Site} {taken : Option AcceptOutcome} {s : Source}
    (h : accepting r site = (.ok taken, site')) (owner : site.server.sourceOf r.source = .ok s) :
    site'.disk = site.disk ∧ ∃ s', site'.server.sourceOf r.source = .ok s' ∧ s'.components = s.components := by
  cases accepts : r.configuration.acceptFirst with
  | true =>
    obtain ⟨t, baselineId, owner', -, next, disk, -⟩ := accepting_taken accepts h
    obtain rfl : t = s := Except.ok.inj (owner'.symm.trans owner)
    exact ⟨disk, _, next, by rw [(Repository.accept_fields t _ _).2]⟩
  | false =>
    obtain ⟨-, rfl⟩ := accepting_skipped accepts h
    exact ⟨rfl, s, owner, rfl⟩

end Fetch

/-- A run that empties its destination leaves the files that the configuration asks for, and the
    metadata. -/
theorem run_leaves {m : Machine} {job : Configuration} {site site' : Site} {out : FetchOutcome}
    (reachable : site.server.Reachable) (deletes : job.deleteFirst = true)
    (done : Fetch.run m job site = (.ok out, site'))
    (distinct : (out.resolved.components.map (·.id)).Nodup) :
    ∃ s rules, site.server.sources.find? (fun s => s.kind == job.forRun.selection.kind &&
        s.name == job.forRun.selection.name) = some s ∧
      Fetch.ruleTable out.resolved.reference (s.components.map (·.component)) = .ok rules ∧
      resolveDestination job.forRun.destination m.workingDir m.host = .ok out.resolved.plan.root ∧
      Leaves out.resolved.plan.root (filesLeft m job out.resolved rules s.components) site.disk site'.disk := by
  obtain ⟨r, s₁, s₂, taken, s₃, paths, resolved, emptied, accepted, loaded, rfl⟩ := Fetch.run_eq_ok done
  obtain ⟨resolves, sources, disk₁, -⟩ := Fetch.resolve_eq_ok resolved
  obtain ⟨s, -, found, owner, -, components⟩ := resolves.selected reachable.distinctWorkspaces
  have on : r.configuration.deleteFirst = true := by rw [resolves.configuration, job.deleteFirst_forRun, deletes]
  obtain ⟨disk, cleared, rfl⟩ := Fetch.emptying_eq_ok emptied
  rw [if_pos on, disk₁] at cleared
  have owner₁ : s₁.server.sourceOf r.source = .ok s := by rw [Fetch.sourceOf_congr sources, owner]
  obtain ⟨disk₂, s', owner', same⟩ := Fetch.accepting_eq_ok accepted owner₁
  obtain ⟨t, files, d₁, d₂, d₃, server, owner'', given, ensured, wrote, metadata, -, rfl⟩ := Fetch.loading_eq_ok loaded
  obtain rfl : t = s' := Except.ok.inj (owner''.symm.trans owner')
  obtain ⟨rules, table, formed⟩ := resolves.set
  refine ⟨s, rules, found, by rw [← components]; exact table, (LoadPlan.layOut_eq_ok resolves.plan).1, ?_⟩
  -- an accept leaves the components of the source alone, so the files are those of before
  have list : files = listing job.forRun rules r.plan.root s.components := by
    rw [← same]
    rw [components, ← same] at formed
    refine filesFor_eq_listing ?_ formed resolves.plan given
    have ids : (r.components.map (·.id)).Nodup := distinct
    rwa [components, ← same, List.map_map] at ids
  rw [disk₂] at ensured
  show Leaves r.plan.root (filesLeft m job r rules s.components) site.disk d₃
  unfold filesLeft
  rw [← list]
  exact Fetch.leaves_of_loading cleared ensured wrote metadata

def oneFile : RepositoryFixture where
  version := ⟨[6, 0, 6]⟩
  sources := [{
    kind := .workspace
    name := "ws"
    components := [ComponentFixture.withFile ⟨some "_core", "core", ∅⟩ "a.txt" "fresh"]
    pending := []
    componentChanges := [] }]

def staleDisk : Disk where
  tree := ((Tree.put default ["work"] .directory).put ["work", "out"] .directory).put ["work", "out", "old.txt"] (.file "stale")

def emptyInto (destination : String) : Configuration := { selection := ⟨.workspace, "ws"⟩, destination, deleteFirst := true }

theorem run_leaves_out : ∃ start out site', Repository.ofFixture noonOfMay ⟨[], 0, []⟩ oneFile = .ok start ∧
    Fetch.run workMachine (emptyInto "out") { server := start, disk := staleDisk } = (.ok out, site') ∧
    ∃ s ∈ start.sources, ∃ rules, s.components.map (·.files.toList) = [[("a.txt", "fresh")]] ∧
      Exactly "/work/out" (filesLeft workMachine (emptyInto "out") out.resolved rules s.components) site'.disk := by
  have ok : comesTo oneFile workMachine (emptyInto "out") staleDisk (fun start out _ =>
      start.sources.all (fun s => s.components.map (·.files.toList) == [[("a.txt", "fresh")]]) &&
        out.resolved.components.map (·.id) == ["_core"] && out.resolved.plan.root.text == "/work/out") = true := by
    decide +kernel
  obtain ⟨start, out, site', built, ran, facts⟩ := of_comesTo ok
  rw [Bool.and_eq_true, Bool.and_eq_true] at facts
  obtain ⟨⟨files, ids⟩, root⟩ := facts
  have reachable : ({ server := start, disk := staleDisk } : Site).server.Reachable := ⟨_, _, _, _, {}, [], built, rfl⟩
  have distinct : (out.resolved.components.map (·.id)).Nodup := by
    rw [eq_of_beq ids]
    decide
  obtain ⟨s, rules, found, -, -, leaves⟩ := run_leaves reachable rfl ran distinct
  have member := List.mem_of_find?_eq_some found
  have place : out.resolved.plan.root = ⟨"/work/out"⟩ := by
    rw [← eq_of_beq root]
  rw [place] at leaves
  refine ⟨start, out, site', built, ran, s, member, rules, eq_of_beq (List.all_eq_true.1 files s member), ?_⟩
  exact leaves.exactly (by decide) (.inr (.inr (by decide)))

/-- Before `missing` is made, `missing/../out` leads nowhere, and nothing is taken away; afterwards it
    leads to `out`, where the file of the earlier build still is. -/
theorem not_exactly_throughMissing : ∃ start out site',
    Repository.ofFixture noonOfMay ⟨[], 0, []⟩ oneFile = .ok start ∧
    Fetch.run workMachine (emptyInto "missing/../out") { server := start, disk := staleDisk } = (.ok out, site') ∧
    (out.resolved.components.map (·.id)).Nodup ∧
    ∃ s rules, start.sources.find? (·.name == "ws") = some s ∧
      Fetch.ruleTable out.resolved.reference (s.components.map (·.component)) = .ok rules ∧
      ¬ Exactly out.resolved.plan.root
        (filesLeft workMachine (emptyInto "missing/../out") out.resolved rules s.components) site'.disk := by
  have ok : comesTo oneFile workMachine (emptyInto "missing/../out") staleDisk (fun start out site' =>
      out.resolved.components.map (·.id) == ["_core"] && out.resolved.reference.isNone &&
        (start.sources.find? (·.name == "ws")).any fun s =>
          site'.disk.isUnder out.resolved.plan.root ["work", "out", "old.txt"] &&
            site'.disk.tree.at? ["work", "out", "old.txt"] == some (.file "stale") &&
            site'.disk.lastAt (filesLeft workMachine (emptyInto "missing/../out") out.resolved {} s.components)
              ["work", "out", "old.txt"] == none) = true := by
    decide +kernel
  obtain ⟨start, out, site', built, ran, facts⟩ := of_comesTo ok
  rw [Bool.and_eq_true, Bool.and_eq_true] at facts
  obtain ⟨⟨ids, unruled⟩, left⟩ := facts
  obtain ⟨s, found, left⟩ := (Option.any_eq_true _ _).1 left
  rw [Bool.and_eq_true, Bool.and_eq_true] at left
  obtain ⟨⟨under, stale⟩, unlisted⟩ := left
  refine ⟨start, out, site', built, ran, ?_, s, {}, found, ?_, fun exactly => ?_⟩
  · rw [eq_of_beq ids]
    decide
  · rw [Option.isNone_iff_eq_none.1 unruled]
    rfl
  · have directory := (exactly.nothingElse _ _ under (eq_of_beq stale) (eq_of_beq unlisted)).1
    cases directory

end SandboxFetch
