/-
  SandboxFetch.Proofs.Disk.Making — directories that had to be made are empty.

  When a path without `..` leads to no directory, and the directories for it are made, it leads to a
  new one with nothing below it (`new_of_makeDirectories`). The chain is followed from its outermost
  path inwards: each path is the one around it and a further name, so that after the outer directory
  was new, the inner one cannot have been there. With `..` this fails: `a/../b` leads nowhere without
  `a`, and to whatever is at `b` as soon as `a` is made.
-/

import Mathlib.Data.List.Basic
import SandboxFetch.Proofs.Disk.Writing

namespace SandboxFetch

open SandboxFetch.Path (Idle moves)

namespace Tree

variable {t : Tree} {hops : Nat} {dir l : Location} {name : String} {xs zs : List String}

/-- What is before the last segment of a way to a directory leads to a directory. -/
theorem Leads.before (h : t.Leads hops dir zs l) (segments : zs = xs ++ [name]) (forward : name ≠ "..")
    (directory : t.at? l = some .directory) : ∃ m, t.Leads hops dir xs m ∧ t.at? m = some .directory := by
  -- at each step there are more segments behind it, or it was the last one
  induction h generalizing xs with
  | stop there => simp at segments
  | @stay hops dir l s rest idle way ih =>
    cases xs with
    | nil =>
      obtain ⟨rfl, rfl⟩ := List.cons_eq_cons.1 segments
      cases way with
      | stop there => exact ⟨_, .stop there, there⟩
    | cons x xs =>
      obtain ⟨rfl, rfl⟩ := List.cons_eq_cons.1 segments
      obtain ⟨m, leads, there⟩ := ih rfl directory
      exact ⟨m, .stay idle leads, there⟩
  | up _ ih =>
    cases xs with
    | nil =>
      obtain ⟨rfl, rfl⟩ := List.cons_eq_cons.1 segments
      exact absurd rfl forward
    | cons x xs =>
      obtain ⟨rfl, rfl⟩ := List.cons_eq_cons.1 segments
      obtain ⟨m, leads, there⟩ := ih rfl directory
      exact ⟨m, .up leads, there⟩
  | down plain there _ ih =>
    cases xs with
    | nil =>
      have parent := parent_of_at? there (by simp)
      rw [List.dropLast_concat] at parent
      exact ⟨_, .stop parent, parent⟩
    | cons x xs =>
      obtain ⟨rfl, rfl⟩ := List.cons_eq_cons.1 segments
      obtain ⟨m, leads, there'⟩ := ih rfl directory
      exact ⟨m, .down plain there leads, there'⟩
  | file plain there =>
    rw [there] at directory
    cases directory
  | follow plain there _ ih =>
    cases xs with
    | nil =>
      have parent := parent_of_at? there (by simp)
      rw [List.dropLast_concat] at parent
      exact ⟨_, .stop parent, parent⟩
    | cons x xs =>
      obtain ⟨rfl, rfl⟩ := List.cons_eq_cons.1 segments
      obtain ⟨m, leads, there'⟩ := ih (List.append_assoc ..).symm directory
      exact ⟨m, .follow plain there leads, there'⟩

/-- Where nothing is below a directory, no name leads on from there. -/
theorem Leads.not_name (h : t.Leads hops dir [name] l) (forward : name ≠ "..") (busy : ¬ Idle name) :
    ∃ m n, m.isBelow dir = true ∧ t.at? m = some n := by
  have below : Location.isBelow (dir ++ [name]) dir = true := isBelow_iff.2 ⟨[name], by simp, rfl⟩
  cases h with
  | stay idle _ => exact absurd idle busy
  | up _ => exact absurd rfl forward
  | down _ there _ => exact ⟨_, _, below, there⟩
  | file _ there => exact ⟨_, _, below, there⟩
  | follow _ there _ => exact ⟨_, _, below, there⟩

end Tree

namespace Disk

variable {d d' : Disk} {p q : Path}

/-- What is made was no directory before. -/
theorem not_isDirectory_of_makeDirectory (h : d.makeDirectory p = .ok d') : d.isDirectory p = false := by
  obtain ⟨l, room, free, rfl, leads⟩ := makeDirectory_eq_ok h
  by_contra there
  rw [Bool.not_eq_false] at there
  obtain ⟨m, leads', directory⟩ := isDirectory_iff.1 there
  have same : m = l := by
    have after : (d.put l .directory).place? p = some m := place?_grow leads' rfl (put_grows room (.inl free))
    exact Option.some.inj (after.symm.trans leads)
  rw [same, free] at directory
  cases directory

/-- For a path that leads to a directory, no outer one is missing. -/
theorem makeDirectory_ne_notFound (there : d.isDirectory p = true) (forward : ".." ∉ p.segments) :
    d.makeDirectory p ≠ .error .notFound := by
  obtain ⟨l, leads, directory⟩ := isDirectory_iff.1 there
  obtain ⟨usable, way⟩ := place?_eq_some.1 leads
  intro missing
  have refused : d.vacancy p = .error .notFound := by
    unfold makeDirectory at missing
    cases made : d.vacancy p with
    | error fault =>
      rw [made] at missing
      cases missing
      rfl
    | ok l =>
      rw [made] at missing
      cases missing
  -- what is before the last segment leads to a directory, so only the last name can be refused
  rcases List.eq_nil_or_concat (p.segments.filter (· ≠ "")) with none | ⟨outer, name, segments⟩
  · unfold vacancy at refused
    simp only [usable, none, List.getLast?_nil] at refused
    cases refused
  · rw [List.concat_eq_append] at segments
    have member : name ∈ p.segments := by
      have kept : name ∈ p.segments.filter (· ≠ "") := by
        rw [segments]
        exact List.mem_append_right _ (List.mem_singleton_self name)
      exact (List.mem_filter.1 kept).1
    have walked : d.tree.Leads hopLimit (d.start p) (outer ++ [name]) l :=
      way.congr directory (by rw [← segments, moves_filter])
    obtain ⟨m, before, there⟩ := walked.before rfl (fun up => forward (up ▸ member)) directory
    rw [vacancy_of_found usable segments (Tree.walk_of_leads before)] at refused
    by_cases dots : name = "." ∨ name = ".."
    · simp [there, dots] at refused
    · by_cases long : nameLimit < name.utf8ByteSize
      · simp [there, dots, long] at refused
      · by_cases taken : (d.tree.at? (m ++ [name])).isSome = true <;> simp [there, dots, long, taken] at refused

/-- A directory with nothing below it, where nothing was before. -/
structure New (d d' : Disk) (p : Path) (top : Location) : Prop where
  leads : d'.place? p = some top
  free : d.tree.at? top = none
  directory : d'.tree.at? top = some .directory
  bare : ∀ l, l.isBelow top = true → d'.tree.at? l = none

theorem new_of_makeDirectory (h : d.makeDirectory p = .ok d') : ∃ top, New d d' p top := by
  obtain ⟨l, room, free, rfl, leads⟩ := makeDirectory_eq_ok h
  refine ⟨l, leads, free, at?_put_self room, fun m below => ?_⟩
  have other : m ≠ l := by
    rintro rfl
    simp [Location.isBelow] at below
  rw [at?_put_other room other]
  exact Tree.at?_below (Tree.not_directory free) below

/-- A path of one step more does not lead on from a new directory. -/
theorem not_isDirectory_of_new {top : Location} {x : Path.Step} {name : String} (new : New d d' q top)
    (steps : p.steps = q.steps ++ [x]) (same : p.isAbsolute = q.isAbsolute) (segment : x.segment? = some name)
    (busy : ¬ Idle name) (forward : name ≠ "..") : d'.isDirectory p = false := by
  by_contra there
  rw [Bool.not_eq_false] at there
  obtain ⟨l, leads, directory⟩ := isDirectory_iff.1 there
  obtain ⟨-, way⟩ := place?_eq_some.1 leads
  obtain ⟨-, outer⟩ := place?_eq_some.1 new.leads
  have moves : moves p.segments = moves (q.segments ++ [name]) := by
    rw [Path.moves_append, Path.moves_segments, Path.moves_segments, steps, List.filterMap_append,
      List.filterMap_cons_some segment, Path.moves_cons busy]
    rfl
  have start : d'.start p = d'.start q := by
    unfold start
    rw [same]
  rw [start] at way
  obtain ⟨left, onwards⟩ := outer.append new.directory
  obtain ⟨m, n, below, there⟩ := ((onwards [name] l).1 (way.congr directory moves)).not_name forward busy
  rw [new.bare m below] at there
  cases there

/-- The directory of some steps; the root is left out, and so is the empty path. -/
def directoryOf : List Path.Step → Option Path
  | [] | [.root] => none
  | outer => some (Path.ofSteps outer)

theorem directoryOf_eq_some {steps : List Path.Step} (h : directoryOf steps = some q) :
    steps ≠ [] ∧ q = Path.ofSteps steps := by
  unfold directoryOf at h
  split at h
  · cases h
  · cases h
  · next nonempty _ => exact ⟨nonempty, (Option.some.inj h).symm⟩

/-- Steps that make no directory have none around them. -/
theorem enclosing_of_directoryOf {steps : List Path.Step} (h : directoryOf steps = none) : enclosing steps = [] := by
  unfold directoryOf at h
  split at h
  · rfl
  · rfl
  · cases h

theorem enclosing_eq (steps : List Path.Step) :
    enclosing steps = (List.range steps.length).reverse.filterMap fun n => directoryOf (steps.take n) := rfl

/-- The directories around one step more: those around the steps before, and the directory of these. -/
theorem enclosing_take_succ {steps : List Path.Step} {n : Nat} (h : n < steps.length) :
    enclosing (steps.take (n + 1)) = (directoryOf (steps.take n)).toList ++ enclosing (steps.take n) := by
  have inner : (List.range n).reverse.filterMap (fun k => directoryOf ((steps.take (n + 1)).take k)) =
      (List.range n).reverse.filterMap (fun k => directoryOf ((steps.take n).take k)) := by
    refine List.filterMap_congr fun k member => ?_
    have : k < n := by simpa using member
    rw [List.take_take, List.take_take, Nat.min_eq_left (by omega), Nat.min_eq_left (by omega)]
  have last : (steps.take (n + 1)).take n = steps.take n := by rw [List.take_take, Nat.min_eq_left (Nat.le_succ n)]
  rw [enclosing_eq, enclosing_eq, List.length_take, List.length_take, Nat.min_eq_left h, Nat.min_eq_left (Nat.le_of_lt h),
    List.range_succ, List.reverse_append, List.reverse_singleton, List.singleton_append, List.filterMap_cons, last, inner]
  cases directoryOf (steps.take n) <;> rfl

/-- A chain whose first directory is neither there nor comes with the outer ones makes it. -/
theorem new_of_makeChain_cons {outer : List Path} (missing : d.isDirectory p = false)
    (still : ∀ mid, makeChain outer d = (.ok (), mid) → mid.isDirectory p = false)
    (h : makeChain (p :: outer) d = (.ok (), d')) : ∃ top, New d d' p top := by
  rcases makeChain_cons_eq_ok h with made | ⟨there, -⟩ | ⟨-, mid, outside, made | ⟨there, -⟩⟩
  · exact new_of_makeDirectory made
  · rw [missing] at there
    cases there
  · obtain ⟨top, new⟩ := new_of_makeDirectory made
    exact ⟨top, { new with free := (wrote_of_makeChain outside).grows.none new.free }⟩
  · rw [still mid outside] at there
    cases there

/-- A chain whose first directory is there makes nothing. -/
theorem eq_of_makeChain {outer : List Path} (there : d.isDirectory p = true) (forward : ".." ∉ p.segments)
    (h : makeChain (p :: outer) d = (.ok (), d')) : d' = d := by
  rcases makeChain_cons_eq_ok h with made | ⟨-, same⟩ | ⟨missing, -⟩
  · rw [not_isDirectory_of_makeDirectory made] at there
    cases there
  · exact same
  · exact absurd missing (makeDirectory_ne_notFound there forward)

theorem notMem_segments_of_steps (h : Path.Step.parent ∉ p.steps) : ".." ∉ p.segments := by
  intro member
  have step : Path.Step.parent ∈ p.segments.filterMap Path.Step.ofSegment? := List.mem_filterMap.2 ⟨_, member, rfl⟩
  exact h (List.mem_append_right _ step)

/-- A path with one step more than a new directory leads to no directory, unless the step is a `..`. -/
theorem not_isDirectory_of_step {r : Path} {top : Location} {n : Nat} {x : Path.Step}
    (new : New d d' (Path.ofSteps (r.steps.take n)) top) (forward : Path.Step.parent ∉ r.steps)
    (nonempty : r.steps.take n ≠ []) (at_ : r.steps[n]? = some x) (further : p.steps = r.steps.take n ++ [x]) :
    d'.isDirectory p = false := by
  have steps := Path.steps_ofSteps_take r n
  obtain ⟨k, rfl⟩ : ∃ k, n = k + 1 := Nat.exists_eq_succ_of_ne_zero fun zero => nonempty (by rw [zero, List.take_zero])
  obtain ⟨segment, busy, -, -, step⟩ := Path.of_mem_filterMap (Path.mem_of_getElem?_succ at_)
  refine not_isDirectory_of_new new (by rw [further, steps]) ?_ segment busy fun up => ?_
  · rw [Path.isAbsolute_eq, Path.isAbsolute_eq, further, steps, List.head?_append_of_ne_nil _ nonempty]
  · rw [up] at step
    cases step
    exact forward (List.mem_of_getElem? at_)

/-- A chain of directories for the first steps of a path without `..` ends in a new one. -/
theorem new_of_makeChain {r : Path} (forward : Path.Step.parent ∉ r.steps) {n : Nat}
    (first : p.steps = r.steps.take n) (missing : d.isDirectory p = false)
    (h : makeChain (p :: enclosing (r.steps.take n)) d = (.ok (), d')) : ∃ top, New d d' p top := by
  induction n generalizing p d' with
  | zero =>
    refine new_of_makeChain_cons missing (fun mid outside => ?_) h
    cases outside
    exact missing
  | succ n ih =>
    cases at_ : r.steps[n]? with
    | none =>
      have same : r.steps.take (n + 1) = r.steps.take n := by
        rw [List.take_add_one, at_, Option.toList_none, List.append_nil]
      rw [same] at first h
      exact ih first missing h
    | some x =>
      have short : n < r.steps.length := (List.getElem?_eq_some_iff.1 at_).1
      rw [enclosing_take_succ short] at h
      refine new_of_makeChain_cons missing (fun mid outside => ?_) h
      cases around : directoryOf (r.steps.take n) with
      | none =>
        rw [around, enclosing_of_directoryOf around] at outside
        cases outside
        exact missing
      | some q =>
        rw [around] at outside
        obtain ⟨nonempty, rfl⟩ := directoryOf_eq_some around
        have steps := Path.steps_ofSteps_take r n
        -- the parent was there and is as it was, or it is new itself
        cases there : d.isDirectory (Path.ofSteps (r.steps.take n)) with
        | true =>
          have outward : Path.Step.parent ∉ (Path.ofSteps (r.steps.take n)).steps := by
            rw [steps]
            exact fun up => forward (List.mem_of_mem_take up)
          rw [eq_of_makeChain there (notMem_segments_of_steps outward) outside]
          exact missing
        | false =>
          obtain ⟨top, new⟩ := ih steps there outside
          refine not_isDirectory_of_step new forward nonempty at_ ?_
          rw [first, List.take_add_one, at_, Option.toList_some]

/-- A path that has no parent but is not empty leads to the root. -/
theorem isDirectory_of_outermost (inner : p.isEmpty = false) (outermost : p.parent? = none)
    (usable : pathFault? p = none) : d.isDirectory p = true := by
  have root : p.steps = [.root] := by
    unfold Path.parent? at outermost
    split at outermost
    · next none =>
      rw [List.getLast?_eq_none_iff] at none
      rw [Path.isEmpty_of_steps_eq_nil none] at inner
      cases inner
    · next last => exact Path.steps_eq_root last
    · cases outermost
  have still : moves p.segments = [] := by rw [Path.moves_segments, root]; rfl
  have absolute : p.isAbsolute = true := by rw [Path.isAbsolute_eq, root]; rfl
  have there := Tree.at?_root d.tree
  refine isDirectory_iff.2 ⟨[], place?_eq_some.2 ⟨usable, ?_⟩, there⟩
  unfold start
  rw [if_pos absolute]
  exact (Tree.Leads.stop there).congr there still.symm

theorem new_of_makeDirectories (forward : Path.Step.parent ∉ p.steps) (inner : p.parent? ≠ none)
    (missing : d.isDirectory p = false) (h : d.makeDirectories p = (.ok (), d')) : ∃ top, New d d' p top := by
  unfold makeDirectories at h
  rw [if_neg (by simpa using inner)] at h
  have whole : p.steps = p.steps.take p.steps.length := List.take_length.symm
  refine new_of_makeChain forward whole missing ?_
  rwa [← whole]

end Disk

end SandboxFetch
