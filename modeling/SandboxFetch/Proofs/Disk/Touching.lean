/-
  SandboxFetch.Proofs.Disk.Touching — what is different on a disk after files were to be written to it.

  `Touched` holds whether the writing succeeded or stopped half-way: each place that is different has
  a file that one of the paths leads to, or a directory that was missing and that one of the paths
  around them leads to (`touched_of_writeAll`). `Confined` says that all of it is inside a destination
  or on the way to it; what only goes down from the destination is confined to it
  (`Touched.confined`).
-/

import SandboxFetch.Proofs.Disk.Repeating

namespace SandboxFetch.Disk

open SandboxFetch.Path (Inside StaysBelow)

variable {d d' d'' : Disk} {p q root : Path} {l : Location} {content : String} {dirs dirs' files more : List Path}

/-! ## Places that are different -/

structure Touched (dirs files : List Path) (d d' : Disk) : Prop where
  here : d'.here = d.here
  grows : d.tree.Grows d'.tree
  different : ∀ l, d'.tree.at? l ≠ d.tree.at? l →
    (∃ content, d'.tree.at? l = some (.file content)) ∧ (∃ p ∈ files, d'.place? p = some l) ∨
    d.tree.at? l = none ∧ d'.tree.at? l = some .directory ∧ ∃ p ∈ dirs, d'.place? p = some l

namespace Touched

theorem refl (d : Disk) : Touched dirs files d d where
  here := rfl
  grows := .refl _
  different := fun _ other => absurd rfl other

theorem place? (t : Touched dirs files d d') (h : d.place? p = some l) : d'.place? p = some l :=
  place?_grow h t.here t.grows

theorem mono (t : Touched dirs files d d') (subDirs : dirs ⊆ dirs') (subFiles : files ⊆ more) :
    Touched dirs' more d d' := by
  refine { t with different := fun l other => ?_ }
  rcases t.different l other with ⟨file, p, member, leads⟩ | ⟨free, made, p, member, leads⟩
  · exact .inl ⟨file, p, subFiles member, leads⟩
  · exact .inr ⟨free, made, p, subDirs member, leads⟩

theorem trans (first : Touched dirs files d d') (last : Touched dirs files d' d'') : Touched dirs files d d'' := by
  refine ⟨last.here.trans first.here, first.grows.trans last.grows, fun l other => ?_⟩
  by_cases later : d''.tree.at? l = d'.tree.at? l
  · rw [later] at other ⊢
    rcases first.different l other with ⟨file, p, member, leads⟩ | ⟨free, made, p, member, leads⟩
    · exact .inl ⟨file, p, member, last.place? leads⟩
    · exact .inr ⟨free, made, p, member, last.place? leads⟩
  · rcases last.different l later with ⟨file, leads⟩ | ⟨free, made, leads⟩
    · exact .inl ⟨file, leads⟩
    · exact .inr ⟨first.grows.none free, made, leads⟩

/-- Nothing becomes a link. -/
theorem linkless (t : Touched dirs files d d') (linkless : d.tree.Linkless) : d'.tree.Linkless := by
  intro l target link
  by_cases same : d'.tree.at? l = d.tree.at? l
  · exact linkless l target (same ▸ link)
  · rcases t.different l same with ⟨⟨content, file⟩, -⟩ | ⟨-, made, -⟩
    · rw [link] at file
      cases file
    · rw [link] at made
      cases made

end Touched

/-- All that was written is what is different after a success. -/
theorem Wrote.touched {files : List (Path × String)} (w : Wrote dirs files d d') :
    Touched dirs (files.map (·.1)) d d' := by
  refine ⟨w.here, w.grows, fun l other => ?_⟩
  cases last : d'.lastAt files l with
  | some content =>
    obtain ⟨f, found, -⟩ := Option.map_eq_some_iff.1 last
    obtain ⟨member, leads⟩ := List.mem_filter.1 (List.mem_of_getLast? found)
    exact .inl ⟨⟨content, w.written l content last⟩, f.1, List.mem_map_of_mem member, of_decide_eq_true leads⟩
  | none =>
    rcases w.elsewhere l last with same | ⟨free, made, p, member, leads⟩
    · exact absurd same other
    · exact .inr ⟨free, made, p, member, leads⟩

/-! ## Writing that may stop half-way -/

theorem touched_of_makeDirectory (made : d.makeDirectory p = .ok d') (member : p ∈ dirs) : Touched dirs files d d' :=
  (wrote_of_makeDirectory made).touched.mono (by simpa using member) (List.nil_subset _)

theorem touched_of_makeChain (ps : List Path) (d : Disk) : Touched ps files d (makeChain ps d).2 := by
  induction ps generalizing d with
  | nil => exact .refl d
  | cons p outer ih =>
    have self : p ∈ p :: outer := List.mem_cons_self
    have settled : ∀ (d : Disk) (fault : DiskFault),
        (if d.isDirectory p then ((.ok (), d) : Except DiskFault Unit × Disk) else (.error fault, d)).2 = d := by
      intro d fault
      split <;> rfl
    unfold makeChain
    dsimp only
    split
    · next made => exact touched_of_makeDirectory made self
    · have around : Touched (p :: outer) files d (makeChain outer d).2 :=
        (ih d).mono (List.subset_cons_self p outer) (List.Subset.refl _)
      split
      · next failed =>
        rw [failed] at around
        exact around
      · next mid outside =>
        rw [outside] at around
        split
        · next made => exact around.trans (touched_of_makeDirectory made self)
        · rw [settled]
          exact around
    · rw [settled]
      exact .refl d

theorem touched_of_makeDirectories (d : Disk) (p : Path) :
    Touched (p :: enclosing p.steps) files d (d.makeDirectories p).2 := by
  unfold makeDirectories
  split
  · exact .refl d
  · exact touched_of_makeChain _ d

theorem touched_of_attempt (d : Disk) (p : Path) (content : String) :
    Touched dirs [p] d (d.attempt (d.write p content)).2 := by
  unfold attempt
  cases done : d.write p content with
  | error fault => exact .refl d
  | ok changed => exact (wrote_of_write done).touched.mono (List.nil_subset _) (List.Subset.refl _)

theorem touched_of_writeInto (d : Disk) (p : Path) (content : String) :
    Touched (enclosing p.steps) [p] d (d.writeInto p content).2 := by
  have outside : ∀ dir, p.parent? = some dir → Touched (enclosing p.steps) [p] d (d.makeDirectories dir).2 := by
    intro dir outer
    by_cases inner : dir.parent? = none
    · unfold makeDirectories
      rw [if_pos (by simp [inner])]
      exact .refl d
    · obtain ⟨member, steps⟩ := parent_mem_enclosing outer inner
      refine (touched_of_makeDirectories d dir).mono (List.cons_subset.2 ⟨member, ?_⟩) (List.Subset.refl _)
      rw [steps]
      exact enclosing_take _ _
  unfold writeInto
  cases outer : p.parent? with
  | none => exact touched_of_attempt d p content
  | some dir =>
    have around := outside dir outer
    rcases made : d.makeDirectories dir with ⟨fault | ⟨⟩, mid⟩
    · rw [made] at around
      simpa only [made] using around
    · rw [made] at around
      simpa only [made] using around.trans (touched_of_attempt mid p content)

/-- Whether all of some files were written or not, only their places and those of the directories
    around them are different. -/
theorem touched_of_writeAll (files : List (Path × String)) (d : Disk) :
    Touched ((files.map (·.1)).flatMap fun p => enclosing p.steps) (files.map (·.1)) d (writeAll files d).2 := by
  induction files generalizing d with
  | nil => exact .refl d
  | cons f rest ih =>
    obtain ⟨p, content⟩ := f
    rw [List.map_cons, List.flatMap_cons]
    have first : Touched (enclosing p.steps ++ (rest.map (·.1)).flatMap fun p => enclosing p.steps)
        (p :: rest.map (·.1)) d (d.writeInto p content).2 :=
      (touched_of_writeInto d p content).mono (List.subset_append_left _ _) (by simp)
    unfold writeAll
    rcases done : d.writeInto p content with ⟨fault | ⟨⟩, mid⟩
    · rw [done] at first
      exact first
    · rw [done] at first
      exact first.trans ((ih mid).mono (List.subset_append_right _ _) (List.subset_cons_self _ _))

/-! ## Inside a destination -/

/-- Each place that is different is inside a destination, or has a directory that was missing on the
    way to the destination itself. Without links it is the place that the path has by its text. -/
def Confined (root : Path) (d d' : Disk) : Prop := ∀ l, d'.tree.at? l ≠ d.tree.at? l →
  ∃ q, d'.place? q = some l ∧ (d.tree.Linkless → q.lexical d.here = l) ∧
    (Inside root q ∨ q ∈ enclosing root.steps ∧ d.tree.at? l = none ∧ d'.tree.at? l = some .directory)

theorem eq_lexical_of_place? (linkless : d.tree.Linkless) (h : d.place? p = some l) : p.lexical d.here = l := by
  obtain ⟨-, leads⟩ := place?_eq_some.1 h
  exact (leads.eq_of_linkless linkless).symm

/-- The directories around a path that stays below a destination are below it or around it. -/
theorem around_of_staysBelow (below : StaysBelow root p) (around : q ∈ enclosing p.steps) :
    Inside root q ∨ q ∈ enclosing root.steps := by
  obtain ⟨n, short, nonempty, notRoot, rfl⟩ := mem_enclosing.1 around
  by_cases inner : n < root.steps.length
  · have same : p.steps.take n = root.steps.take n := by
      conv_lhs => rw [below.steps_eq]
      rw [List.take_append_of_le_length (Nat.le_of_lt inner)]
    rw [same] at nonempty notRoot ⊢
    exact .inr (mem_enclosing.2 ⟨n, inner, nonempty, notRoot, rfl⟩)
  · have steps := Path.steps_ofSteps_take p n
    refine .inl (below.take steps ?_ (Nat.not_lt.1 inner)).inside
    have first : n ≠ 0 := by
      rintro rfl
      exact nonempty List.take_zero
    rw [Path.isAbsolute_eq, steps, List.head?_take, if_neg first, ← Path.isAbsolute_eq, below.anchored]

theorem Touched.confined (t : Touched (files.flatMap fun p => enclosing p.steps) files d d')
    (below : ∀ p ∈ files, StaysBelow root p) : Confined root d d' := by
  intro l other
  have placed : ∀ q, d'.place? q = some l → d.tree.Linkless → q.lexical d.here = l := by
    intro q leads linkless
    rw [← t.here]
    exact eq_lexical_of_place? (t.linkless linkless) leads
  rcases t.different l other with ⟨-, p, member, leads⟩ | ⟨free, made, q, member, leads⟩
  · exact ⟨p, leads, placed p leads, .inl (below p member).inside⟩
  · obtain ⟨p, among, around⟩ := List.mem_flatMap.1 member
    refine ⟨q, leads, placed q leads, ?_⟩
    rcases around_of_staysBelow (below p among) around with inside | outer
    · exact .inl inside
    · exact .inr ⟨outer, free, made⟩

end SandboxFetch.Disk
