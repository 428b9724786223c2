/-
  SandboxFetch.Proofs.Fetch.Clearing — what emptying a destination does to a machine.

  The machine may refuse to read a name or to remove what is at a place. Whatever it refuses, only places
  below the directory that the destination leads to can change, and what changes there is gone
  (`Clears.frame`): what a link below it points to stays, unless that is below it as well. Emptying that
  succeeds leaves the directory, and nothing in it (`Clears.emptied`), and it succeeds when nothing in it
  is refused. Where the destination leads to no directory, everything stays: it is no failure that a name on
  the way to it is missing, and a failure when it leads to a file or cannot be looked up for another reason
  (`clearDestination_clears`), as one that is not there can be (`not_there_is_refused`).
-/

import SandboxFetch.Proofs.Disk.Stopping
import SandboxFetch.Proofs.Fetch.Stages

namespace SandboxFetch.Fetch

variable {h : Hindrances} {root : Path} {site : Site} {top : Location} {fault : DiskFault}

/-! ## The answers -/

theorem clearDestination_of_directory (h : Hindrances) (leads : site.disk.place? root = some top)
    (directory : site.disk.tree.at? top = some .directory) : clearDestination root h site =
      ((site.disk.tree.removeContents h root top).1.mapError fun (path, fault) => .environment (.deleteFailed path fault),
        { site with disk := { site.disk with tree := (site.disk.tree.removeContents h root top).2 } }) := by
  have removed := Disk.removeContents_of_place? h leads directory
  unfold clearDestination
  rw [bind_apply, destinationExists_apply, Disk.status_of_place? leads, if_pos directory]
  dsimp only
  rw [if_pos rfl, adapt_apply, Site.onDisk]
  dsimp only
  rw [removed]

theorem clearDestination_of_file {content : String} (h : Hindrances) (leads : site.disk.place? root = some top)
    (file : site.disk.tree.at? top = some (.file content)) :
    clearDestination root h site = (.error (.environment (.notDirectory root)), site) := by
  unfold clearDestination
  rw [bind_apply, destinationExists_apply, Disk.status_of_place? leads, file, if_neg nofun]

theorem clearDestination_of_refuses (h : Hindrances) (refused : site.disk.Refuses root fault) :
    clearDestination root h site =
      (if fault = .notFound then .ok () else .error (.environment (.deleteFailed root fault)), site) := by
  unfold clearDestination
  rw [bind_apply, destinationExists_apply, Disk.status_of_refuses refused]
  by_cases missing : fault = .notFound
  · rw [if_pos missing, if_pos missing]
    rfl
  · rw [if_neg missing, if_neg missing]

/-! ## Emptying -/

/-- Whatever comes of it, each place is as it was, or it is below the destination and nothing is there
    any more. -/
theorem clearDestination_frame (h : Hindrances) (root : Path) (site : Site) (l : Location) :
    (clearDestination root h site).2.disk.tree.at? l = site.disk.tree.at? l ∨
      (∃ top, site.disk.place? root = some top ∧ l.isBelow top = true) ∧
        (clearDestination root h site).2.disk.tree.at? l = none := by
  rcases site.disk.place_or_refused root with ⟨top, leads⟩ | ⟨fault, stops⟩
  · obtain directory | ⟨content, file⟩ := (Disk.place?_eq_some.1 leads).2.hasFile
    · rw [clearDestination_of_directory h leads directory]
      rcases (Tree.removes_removeContents h root top site.disk.tree).loses.at? l with kept | ⟨below, gone⟩
      · exact .inl kept
      · exact .inr ⟨⟨top, leads, below⟩, gone⟩
    · exact .inl (by rw [clearDestination_of_file h leads file])
  · exact .inl (by rw [clearDestination_of_refuses h stops])

structure Clears (h : Hindrances) (root : Path) (site : Site) (r : Except FetchError Unit × Site) : Prop where
  /-- Nothing but the tree of the disk can change. -/
  rest : ∃ tree, r.2 = { site with disk := { site.disk with tree } }
  /-- Each place is as it was, or it is below the destination and nothing is there any more. -/
  frame : ∀ l, r.2.disk.tree.at? l = site.disk.tree.at? l ∨
    (∃ top, site.disk.place? root = some top ∧ l.isBelow top = true) ∧ r.2.disk.tree.at? l = none
  emptied : ∀ top, site.disk.place? root = some top → site.disk.tree.at? top = some .directory → r.1 = .ok () →
    r.2.disk.tree.at? top = some .directory ∧ ∀ l, l.isBelow top = true → r.2.disk.tree.at? l = none
  /-- A failure names the destination, or what is in it. -/
  failed : ∀ top, site.disk.place? root = some top → site.disk.tree.at? top = some .directory → ∀ e, r.1 = .error e →
    ∃ path fault, e = .environment (.deleteFailed path fault) ∧
      (path = root ∨ ∃ name : String, (site.disk.tree.at? (top ++ [name])).isSome ∧ path = root.push ⟨name⟩)
  succeeds : ∀ top, site.disk.place? root = some top → site.disk.tree.at? top = some .directory → h.Spares top →
    r.1 = .ok ()
  missing : site.disk.Refuses root .notFound → r = (.ok (), site)
  occupied : ∀ top content, site.disk.place? root = some top → site.disk.tree.at? top = some (.file content) →
    r = (.error (.environment (.notDirectory root)), site)
  refused : ∀ fault, fault ≠ .notFound → site.disk.Refuses root fault →
    r = (.error (.environment (.deleteFailed root fault)), site)

theorem clears_of_directory (h : Hindrances) (leads : site.disk.place? root = some top)
    (directory : site.disk.tree.at? top = some .directory) : Clears h root site (clearDestination root h site) := by
  have removed := Tree.removes_removeContents h root top site.disk.tree
  have only {top' : Location} (leads' : site.disk.place? root = some top') : top' = top :=
    Option.some.inj (leads'.symm.trans leads)
  have led {fault : DiskFault} (refused : site.disk.Refuses root fault) : False := by
    rw [Disk.place?_of_refuses refused] at leads
    cases leads
  have frame := clearDestination_frame h root site
  rw [clearDestination_of_directory h leads directory] at frame ⊢
  refine ⟨⟨_, rfl⟩, frame, fun top' leads' _ ok => ?_, fun top' leads' _ e failed => ?_,
    fun top' leads' _ spares => ?_, fun refused => (led refused).elim, fun top' content leads' file => ?_,
    fun _ _ refused => (led refused).elim⟩
  · obtain rfl := only leads'
    rw [mapError_eq_ok] at ok
    refine ⟨?_, fun l below => ?_⟩
    · rcases removed.loses.at? top' with kept | ⟨below, -⟩
      · exact kept.trans directory
      · simp [Location.isBelow] at below
    · rw [Tree.eq_clear_of_removeContents ok, Tree.at?_clear, if_pos below]
  · obtain rfl := only leads'
    obtain ⟨⟨path, fault⟩, stopped, rfl⟩ := mapError_eq_error.1 failed
    refine ⟨path, fault, rfl, ?_⟩
    rcases removed.fault path fault stopped with whole | ⟨name, named, same⟩
    · exact .inl whole
    · exact .inr ⟨name, Tree.at?_of_mem_names named, same⟩
  · obtain rfl := only leads'
    rw [Tree.removeContents_ok spares]
    rfl
  · obtain rfl := only leads'
    rw [file] at directory
    cases directory

/-- Where the destination leads to no directory, nothing changes. -/
theorem clears_of_unchanged (h : Hindrances) (leads : ∀ top, site.disk.place? root = some top →
    site.disk.tree.at? top ≠ some .directory) (unchanged : (clearDestination root h site).2 = site) :
    Clears h root site (clearDestination root h site) where
  rest := ⟨site.disk.tree, unchanged⟩
  frame := clearDestination_frame h root site
  emptied top there directory := absurd directory (leads top there)
  failed top there directory := absurd directory (leads top there)
  succeeds top there directory := absurd directory (leads top there)
  missing refused := by rw [clearDestination_of_refuses h refused, if_pos rfl]
  occupied _ _ there file := clearDestination_of_file h there file
  refused _ other refused := by rw [clearDestination_of_refuses h refused, if_neg other]

/-- Whatever the destination, the machine and what it refuses. -/
theorem clearDestination_clears (h : Hindrances) (root : Path) (site : Site) :
    Clears h root site (clearDestination root h site) := by
  rcases site.disk.place_or_refused root with ⟨top, leads⟩ | ⟨fault, stops⟩
  · obtain directory | ⟨content, file⟩ := (Disk.place?_eq_some.1 leads).2.hasFile
    · exact clears_of_directory h leads directory
    · refine clears_of_unchanged h (fun top' leads' => ?_) (by rw [clearDestination_of_file h leads file])
      rw [Option.some.inj (leads'.symm.trans leads), file]
      exact nofun
  · refine clears_of_unchanged h (fun top leads => ?_) (by rw [clearDestination_of_refuses h stops])
    rw [Disk.place?_of_refuses stops] at leads
    cases leads

/-- A machine with a link to itself in `/out`, one to something behind a file, and deeper down one to a file
    elsewhere. -/
def linkedSite : Site where
  server := { version := ⟨[6]⟩, sources := [], ids := ⟨[], 0, []⟩ }
  disk := { tree := [(["kept.txt"], Node.file "kept"), (["out"], .directory), (["out", "a.txt"], .file ""),
    (["out", "loop"], .link "loop"), (["out", "beyond"], .link "a.txt/b"), (["out", "b"], .directory),
    (["out", "b", "away"], .link "/kept.txt")].foldl (fun t e => t.put e.1 e.2) default }

/-- What a link points to stays. -/
example : (clearDestination "/out" {} linkedSite).2.disk.tree.entries =
    [(["out"], .directory), (["kept.txt"], .file "kept")] := by decide +kernel

/-! ## Destinations that cannot be looked up -/

/-- A path leads nowhere, and what there is of the paths around it are directories. -/
def NotThere (d : Disk) (p : Path) : Prop :=
  d.place? p = none ∧ ∀ outer ∈ Disk.enclosing p.steps, d.place? outer = none ∨ d.isDirectory outer = true

instance (d : Disk) (p : Path) : Decidable (NotThere d p) := inferInstanceAs (Decidable (_ ∧ _))

def RefusedThough (site : Site) (p : Path) (fault : DiskFault) : Prop :=
  NotThere site.disk p ∧ (clearDestination p {} site).1 = .error (.environment (.deleteFailed p fault))

instance (site : Site) (p : Path) (fault : DiskFault) : Decidable (RefusedThough site p fault) :=
  inferInstanceAs (Decidable (_ ∧ _))

/-- There are other reasons to refuse a destination that is not there than that it is missing; the last
    one is that its name has 256 bytes. -/
theorem not_there_is_refused :
    RefusedThough linkedSite "/out/loop" .tooManyLinks ∧ RefusedThough linkedSite "/out/beyond" .notDirectory ∧
      RefusedThough linkedSite "/out/\x00" .badPath ∧
      RefusedThough linkedSite ⟨"/out/" ++ String.ofList (List.replicate 64 '𝔫')⟩ .nameTooLong := by
  decide +kernel

end SandboxFetch.Fetch
