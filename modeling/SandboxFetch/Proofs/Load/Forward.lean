/-
  SandboxFetch.Proofs.Load.Forward — loads that go below their destination.

  When neither the working directory nor the configured destination has a `..`, the destination that
  is resolved from them has none either (`forward_resolveDestination`). When the names that become
  folders and the paths of files have none besides, no file is written through a `..`
  (`forward_filesFor`).
-/

import SandboxFetch.Proofs.Load.Planning
import SandboxFetch.Proofs.Path.Segments
import SandboxFetch.Repository.Source

namespace SandboxFetch

open SandboxFetch.Path (Forward)

/-! ## Destinations -/

def destinationSegments (destination : String) (host : Host) : List (List Char) :=
  (Text.stripEnds Text.isBlank destination.toList).splitOnP host.separates

/-- Where more characters separate, each piece is cut further. -/
theorem splitOnP_eq_flatMap {p q : Char → Bool} (more : ∀ c, p c = true → q c = true) (cs : List Char) :
    cs.splitOnP q = (cs.splitOnP p).flatMap (List.splitOnP q) := by
  induction cs with
  | nil => rfl
  | cons c rest ih =>
    rw [List.splitOnP_cons_eq_if_modifyHead, List.splitOnP_cons_eq_if_modifyHead, ih]
    by_cases cut : p c = true
    · rw [if_pos cut, if_pos (more c cut)]
      rfl
    · rw [if_neg cut]
      cases pieces : rest.splitOnP p with
      | nil => exact absurd pieces (List.splitOnP_ne_nil _ rest)
      | cons first others =>
        rw [List.modifyHead_cons, List.flatMap_cons, List.flatMap_cons, List.splitOnP_cons_eq_if_modifyHead]
        split
        · rfl
        · cases inner : first.splitOnP q with
          | nil => exact absurd inner (List.splitOnP_ne_nil _ first)
          | cons piece _ => rfl

theorem separates_slash (host : Host) : host.separates '/' = true := by cases host <;> rfl

/-- What no `..` was in as the host separates it has none as a path either. -/
theorem forward_of_splitOnP {cs : List Char} {host : Host} (clean : ['.', '.'] ∉ cs.splitOnP host.separates) :
    Forward ⟨String.ofList cs⟩ := by
  intro up
  rw [Path.segments_ofList] at up
  obtain ⟨piece, member, text⟩ := List.mem_map.1 up
  have dots : piece = ['.', '.'] := String.toList_ofList.symm.trans (congrArg String.toList text)
  rw [dots] at member
  have dot : host.separates '.' = false := by cases host <;> rfl
  have whole : List.splitOnP host.separates ['.', '.'] = [['.', '.']] := List.splitOnP_eq_singleton (by simp [dot])
  refine clean ?_
  rw [splitOnP_eq_flatMap (p := (· == '/')) fun c slash => by rw [eq_of_beq slash, separates_slash]]
  exact List.mem_flatMap.2 ⟨_, member, by rw [whole]; exact List.mem_singleton_self _⟩

/-- No piece of a destination has a separator of paths. -/
theorem bare_of_piece {cs piece : List Char} {host : Host} (member : piece ∈ cs.splitOnP host.separates) :
    '/' ∉ piece := by
  intro slash
  have free := Path.of_mem_splitOnP member '/' slash
  rw [separates_slash] at free
  cases free

/-- A single piece of a destination is a path without `..`, unless it is one. -/
theorem forward_of_piece {cs piece : List Char} {host : Host} (member : piece ∈ cs.splitOnP host.separates)
    (other : piece ≠ ['.', '.']) : Forward ⟨String.ofList piece⟩ := by
  intro up
  rw [Path.segments_of_notMem (by rw [String.toList_ofList]; exact bare_of_piece member), List.mem_singleton] at up
  exact other ((congrArg String.toList up).trans String.toList_ofList).symm

theorem forward_resolveDestination {destination : String} {workingDir root : Path} {host : Host}
    (inner : workingDir.Forward) (clean : ['.', '.'] ∉ destinationSegments destination host)
    (done : resolveDestination destination workingDir host = .ok root) : root.Forward := by
  unfold destinationSegments at clean
  unfold resolveDestination at done
  dsimp only at done
  split at done
  · cases done
  · split at done
    · cases done
    · split at done
      · cases done
        exact forward_of_splitOnP clean
      · cases done
        have pieces : ∀ s ∈ ((Text.stripEnds Text.isBlank destination.toList).splitOnP host.separates).filter
            (fun s => !s.isEmpty && s != ['.']), Forward ⟨String.ofList s⟩ := by
          intro s member
          have member := List.mem_of_mem_filter member
          exact forward_of_piece member fun dots => clean (dots ▸ member)
        generalize ((Text.stripEnds Text.isBlank destination.toList).splitOnP host.separates).filter
          (fun s => !s.isEmpty && s != ['.']) = segments at pieces
        induction segments generalizing workingDir with
        | nil => exact inner
        | cons s rest ih =>
          exact ih (inner.push (pieces s List.mem_cons_self)) fun s member => pieces s (List.mem_cons_of_mem _ member)

/-! ## Files -/

/-- The folders of a plan are names of components, or empty. -/
theorem forward_folder {all : List Component} {c : Configuration} {rules : RuleTable} {set : ComponentSet}
    {plan : LoadPlan} {workingDir : Path} {host : Host} (formed : ComponentSet.resolve all c rules = .ok set)
    (laid : LoadPlan.layOut set c workingDir host = .ok plan)
    (names : c.componentFolders = true → ∀ component ∈ all, Forward ⟨component.name⟩) {e : PlanEntry}
    (member : e ∈ plan.entries) : e.folder.Forward := by
  obtain ⟨-, folder⟩ := LoadPlan.folder_of_layOut laid member
  rw [folder]
  split
  · next on =>
    refine names on _ ((ComponentSet.components_sublist formed).mem ?_)
    rw [← LoadPlan.components_of_layOut laid]
    exact List.mem_map_of_mem member
  · decide

/-- Nothing is written through a `..` when none is in the destination, in a folder, or in the path of a
    file. -/
theorem forward_filesFor {s : Source} {plan : LoadPlan} {files : List (Path × String)} (root : plan.root.Forward)
    (folders : ∀ e ∈ plan.entries, e.folder.Forward)
    (paths : ∀ c ∈ s.components, ∀ f ∈ c.files.toList, Forward ⟨f.1⟩) (given : s.filesFor plan.request = .ok files) :
    ∀ f ∈ files, f.1.Forward := by
  obtain ⟨lists, answers, rfl⟩ := Source.filesFor_iff.1 given
  intro f member
  obtain ⟨list, among, member⟩ := List.mem_flatten.1 member
  obtain ⟨asked, requested, answer⟩ := exists_of_mem_right answers among
  obtain ⟨e, planned, rfl⟩ := List.mem_map.1 requested
  have target : (plan.targetDir e).Forward := by
    unfold LoadPlan.targetDir
    split
    · exact root
    · exact root.push (folders e planned)
  obtain ⟨-, c, found, rfl⟩ := Source.filesOf_iff.1 answer
  obtain ⟨stored, wanted, rfl⟩ := List.mem_map.1 member
  exact target.push (paths c (List.mem_of_find?_eq_some found) stored (List.mem_of_mem_filter wanted))

end SandboxFetch
