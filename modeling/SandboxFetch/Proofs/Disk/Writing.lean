/-
  SandboxFetch.Proofs.Disk.Writing — what is on a disk after files were written to it.

  `Wrote` says all of it: each of the files is where its path leads, with the content of the last one
  that leads there; and whatever is new elsewhere is a directory that one of some paths leads to.
  Nothing goes away, and no directory or link changes. It holds for making one directory and for
  writing one file, and it composes (`Wrote.append`), so it holds for all that a disk is asked to
  write (`wrote_of_writeAll`).
-/

import SandboxFetch.Proofs.Disk.Walking

namespace SandboxFetch.Disk

variable {d d' d'' : Disk} {p : Path} {l : Location} {content : String} {dirs dirs' : List Path}
  {files more : List (Path × String)}

/-! ## The last file at a place -/

/-- What the last of some files that lead to a place has for it. -/
def lastAt (d : Disk) (files : List (Path × String)) (l : Location) : Option String :=
  (files.filter fun f => d.place? f.1 = some l).getLast?.map (·.2)

theorem lastAt_append (d : Disk) (files more : List (Path × String)) (l : Location) :
    d.lastAt (files ++ more) l = (d.lastAt more l).or (d.lastAt files l) := by
  unfold lastAt
  rw [List.filter_append, List.getLast?_append]
  cases (more.filter fun f => d.place? f.1 = some l).getLast? <;> rfl

theorem lastAt_congr (same : ∀ f ∈ files, d'.place? f.1 = d.place? f.1) (l : Location) :
    d'.lastAt files l = d.lastAt files l := by
  unfold lastAt
  congr 2
  refine List.filter_congr fun f member => ?_
  rw [same f member]

theorem lastAt_single (h : d.place? p = some l) (m : Location) :
    d.lastAt [(p, content)] m = if m = l then some content else none := by
  unfold lastAt
  by_cases same : m = l
  · simp [h, same]
  · have other : ¬ l = m := fun e => same e.symm
    simp [h, same, other]

/-! ## All that was written -/

structure Wrote (dirs : List Path) (files : List (Path × String)) (d d' : Disk) : Prop where
  here : d'.here = d.here
  grows : d.tree.Grows d'.tree
  reached : ∀ f ∈ files, ∃ l, d'.place? f.1 = some l
  written : ∀ l content, d'.lastAt files l = some content → d'.tree.at? l = some (.file content)
  elsewhere : ∀ l, d'.lastAt files l = none → d'.tree.at? l = d.tree.at? l ∨
    d.tree.at? l = none ∧ d'.tree.at? l = some .directory ∧ ∃ p ∈ dirs, d'.place? p = some l

namespace Wrote

theorem refl (d : Disk) : Wrote [] [] d d where
  here := rfl
  grows := .refl _
  reached := fun _ member => nomatch member
  written := fun _ _ found => nomatch found
  elsewhere := fun _ _ => .inl rfl

theorem place? (w : Wrote dirs files d d') (h : d.place? p = some l) : d'.place? p = some l :=
  place?_grow h w.here w.grows

theorem mono (w : Wrote dirs files d d') (sub : dirs ⊆ dirs') : Wrote dirs' files d d' := by
  refine { w with elsewhere := fun l none => ?_ }
  rcases w.elsewhere l none with kept | ⟨free, made, p, member, leads⟩
  · exact .inl kept
  · exact .inr ⟨free, made, p, sub member, leads⟩

/-- The path of each file leads to one. -/
theorem holds (w : Wrote dirs files d d') {f : Path × String} (member : f ∈ files) :
    ∃ l content, d'.place? f.1 = some l ∧ d'.tree.at? l = some (.file content) := by
  obtain ⟨l, leads⟩ := w.reached f member
  cases last : d'.lastAt files l with
  | some content => exact ⟨l, content, leads, w.written l content last⟩
  | none =>
    have there : f ∈ files.filter fun f => d'.place? f.1 = some l := List.mem_filter.2 ⟨member, by simpa using leads⟩
    rw [lastAt, Option.map_eq_none_iff, List.getLast?_eq_none_iff] at last
    rw [last] at there
    cases there

/-- What the files that were written first have at a place does not change by what comes after. -/
theorem lastAt_eq (first : Wrote dirs files d d') (last : Wrote dirs' more d' d'') (l : Location) :
    d''.lastAt files l = d'.lastAt files l := by
  refine lastAt_congr (fun f member => ?_) l
  obtain ⟨m, leads⟩ := first.reached f member
  rw [leads, last.place? leads]

theorem append (first : Wrote dirs files d d') (last : Wrote dirs' more d' d'') :
    Wrote (dirs ++ dirs') (files ++ more) d d'' := by
  refine ⟨last.here.trans first.here, first.grows.trans last.grows, ?_, ?_, ?_⟩
  · intro f member
    rcases List.mem_append.1 member with member | member
    · obtain ⟨l, leads⟩ := first.reached f member
      exact ⟨l, last.place? leads⟩
    · exact last.reached f member
  · intro l content found
    rw [lastAt_append, first.lastAt_eq last] at found
    -- what is written later counts; elsewhere what was written before stays
    cases later : d''.lastAt more l with
    | some c =>
      rw [later] at found
      cases found
      exact last.written l _ later
    | none =>
      rw [later, Option.none_or] at found
      have before := first.written l content found
      rcases last.elsewhere l later with kept | ⟨free, -⟩
      · rw [kept, before]
      · rw [before] at free
        cases free
  · intro l none
    rw [lastAt_append, Option.or_eq_none_iff, first.lastAt_eq last] at none
    obtain ⟨later, before⟩ := none
    rcases last.elsewhere l later with kept | ⟨free, made, p, member, leads⟩
    · rcases first.elsewhere l before with same | ⟨free, made, p, member, leads⟩
      · exact .inl (kept.trans same)
      · exact .inr ⟨free, kept.trans made, p, List.mem_append_left _ member, last.place? leads⟩
    · exact .inr ⟨first.grows.none free, made, p, List.mem_append_right _ member, leads⟩

end Wrote

/-! ## Putting one node -/

theorem put_grows {n : Node} (room : d.tree.CanHold l) (new : d.tree.at? l = none ∨
    ∃ old content, d.tree.at? l = some (.file old) ∧ n = .file content) : d.tree.Grows (d.put l n).tree := by
  intro m before there
  show ∃ after, (d.tree.put l n).at? m = some after ∧ before.Succeeds after
  rw [Tree.at?_put room]
  by_cases same : m = l
  · subst same
    rw [if_pos rfl]
    rcases new with free | ⟨old, content, was, rfl⟩
    · rw [free] at there
      cases there
    · rw [was] at there
      cases there
      exact ⟨_, rfl, .inr ⟨old, content, rfl, rfl⟩⟩
  · rw [if_neg same]
    exact ⟨before, there, .inl rfl⟩

theorem at?_put_self {n : Node} (room : d.tree.CanHold l) : (d.put l n).tree.at? l = some n := by
  show (d.tree.put l n).at? l = some n
  rw [Tree.at?_put room, if_pos rfl]

theorem at?_put_other {n : Node} {m : Location} (room : d.tree.CanHold l) (other : m ≠ l) :
    (d.put l n).tree.at? m = d.tree.at? m := by
  show (d.tree.put l n).at? m = _
  rw [Tree.at?_put room, if_neg other]

/-! ## One file -/

/-- A path that can be followed and ends at a vacant place leads to what is put there. -/
theorem awaits_of_locate (h : d.locate p = .ok (.vacant l)) :
    pathFault? p = none ∧ d.tree.Awaits hopLimit (d.start p) p.segments l := by
  unfold locate at h
  split at h
  · cases h
  · exact ⟨‹_›, Tree.awaits_of_walk h⟩

/-- A file is put where its path leads, over another file or where nothing was. -/
theorem write_eq_ok (h : d.write p content = .ok d') :
    ∃ l, d.tree.CanHold l ∧ (d.tree.at? l = none ∨ ∃ old, d.tree.at? l = some (.file old)) ∧
      d' = d.put l (.file content) ∧ d'.place? p = some l := by
  unfold write at h
  split at h
  · next l located =>
    split at h
    · cases h
    · next notDirectory =>
      cases h
      have leads : d.place? p = some l := by
        unfold place?
        rw [located]
      obtain ⟨-, walked⟩ := place?_eq_some.1 leads
      obtain ⟨old, file⟩ := walked.hasFile.resolve_left notDirectory
      have inner : l ≠ [] := by
        rintro rfl
        exact notDirectory (Tree.at?_root _)
      have room : d.tree.CanHold l := ⟨inner, Tree.parent_of_at? file inner, notDirectory⟩
      refine ⟨l, room, .inr ⟨old, file⟩, rfl, ?_⟩
      exact place?_grow leads rfl (put_grows room (.inr ⟨old, content, file, rfl⟩))
  · next l located =>
    cases h
    obtain ⟨usable, awaits⟩ := awaits_of_locate located
    have room : d.tree.CanHold l := ⟨awaits.inner, awaits.parent, Tree.not_directory awaits.free⟩
    refine ⟨l, room, .inl awaits.free, rfl, place?_eq_some.2 ⟨usable, ?_⟩⟩
    exact awaits.reach _ (put_grows room (.inl awaits.free)) (.inr ⟨content, at?_put_self room⟩)
  · cases h

theorem wrote_of_write (h : d.write p content = .ok d') : Wrote [] [(p, content)] d d' := by
  obtain ⟨l, room, before, rfl, leads⟩ := write_eq_ok h
  have new : d.tree.at? l = none ∨ ∃ old c, d.tree.at? l = some (.file old) ∧ Node.file content = .file c :=
    before.imp_right fun ⟨old, file⟩ => ⟨old, content, file, rfl⟩
  refine ⟨rfl, put_grows room new, ?_, ?_, ?_⟩
  · intro f member
    obtain rfl := List.mem_singleton.1 member
    exact ⟨l, leads⟩
  · intro m c found
    rw [lastAt_single leads] at found
    split at found
    · next same =>
      cases found
      rw [same]
      exact at?_put_self room
    · cases found
  · intro m none
    rw [lastAt_single leads] at none
    split at none
    · cases none
    · next other => exact .inl (at?_put_other room other)

/-! ## One directory -/

theorem isDirectory_iff : d.isDirectory p = true ↔ ∃ l, d.place? p = some l ∧ d.tree.at? l = some .directory := by
  unfold isDirectory status place?
  cases d.locate p with
  | error fault => cases fault <;> simp
  | ok place =>
    cases place with
    | vacant l => simp
    | found l =>
      by_cases there : d.tree.at? l = some .directory <;> simp [there]

theorem moves_filter (segs : List String) : Path.moves (segs.filter (· ≠ "")) = Path.moves segs := by
  unfold Path.moves
  rw [List.filter_filter]
  refine List.filter_congr fun s _ => ?_
  by_cases empty : s = "" <;> simp [empty]

/-- A new node is put under the last name of its path into the directory that the segments before it
    lead to, unless something is there. -/
theorem vacancy_of_found {outer : List String} {name : String} {dir : Location} (usable : pathFault? p = none)
    (segments : p.segments.filter (· ≠ "") = outer ++ [name])
    (found : d.tree.walk hopLimit (d.start p) outer = .ok (.found dir)) :
    d.vacancy p =
      if d.tree.at? dir ≠ some .directory then .error .notDirectory
      else if name = "." ∨ name = ".." then .error .occupied
      else if nameLimit < name.utf8ByteSize then .error .nameTooLong
      else if (d.tree.at? (dir ++ [name])).isSome then .error .occupied
      else .ok (dir ++ [name]) := by
  unfold vacancy
  simp only [usable, segments, List.getLast?_concat, List.dropLast_concat, found]

theorem found_of_vacancy (h : d.vacancy p = .ok l) :
    pathFault? p = none ∧ ∃ outer name dir, p.segments.filter (· ≠ "") = outer ++ [name] ∧
      d.tree.walk hopLimit (d.start p) outer = .ok (.found dir) := by
  unfold vacancy at h
  dsimp only at h
  split at h
  · cases h
  · next usable =>
    split at h
    · cases h
    · next name last =>
      obtain ⟨outer, segments⟩ := List.getLast?_eq_some_iff.1 last
      rw [segments, List.dropLast_concat] at h
      split at h
      · cases h
      · cases h
      · next dir found => exact ⟨usable, outer, name, dir, segments, found⟩

theorem vacancy_eq_ok (h : d.vacancy p = .ok l) :
    pathFault? p = none ∧ ∃ outer name dir, p.segments.filter (· ≠ "") = outer ++ [name] ∧ Tree.Plain name ∧
      d.tree.Leads hopLimit (d.start p) outer dir ∧ d.tree.at? dir = some .directory ∧
      l = dir ++ [name] ∧ d.tree.at? l = none := by
  obtain ⟨usable, outer, name, dir, segments, found⟩ := found_of_vacancy h
  rw [vacancy_of_found usable segments found] at h
  have inner : name ≠ "" := by
    have member : name ∈ p.segments.filter (· ≠ "") := by
      rw [segments]
      exact List.mem_append_right _ (List.mem_singleton_self name)
    exact of_decide_eq_true (List.mem_filter.1 member).2
  by_cases directory : d.tree.at? dir = some .directory
  · by_cases dots : name = "." ∨ name = ".."
    · simp [directory, dots] at h
    · by_cases long : nameLimit < name.utf8ByteSize
      · simp [directory, dots, long] at h
      · by_cases taken : (d.tree.at? (dir ++ [name])).isSome = true
        · simp [directory, dots, long, taken] at h
        · rw [if_neg (not_not.2 directory), if_neg dots, if_neg long, if_neg taken] at h
          cases h
          obtain ⟨dot, up⟩ := not_or.1 dots
          exact ⟨usable, outer, name, dir, segments, ⟨not_or.2 ⟨inner, dot⟩, up, Nat.not_lt.1 long⟩,
            Tree.leads_of_walk found, directory, rfl, by simpa using taken⟩
  · simp [directory] at h

theorem vacancy_of_makeDirectory (h : d.makeDirectory p = .ok d') :
    ∃ l, d.vacancy p = .ok l ∧ d' = d.put l .directory := by
  unfold makeDirectory at h
  cases made : d.vacancy p with
  | error fault =>
    rw [made] at h
    cases h
  | ok l =>
    rw [made] at h
    cases h
    exact ⟨l, rfl, rfl⟩

/-- A path leads to the directory that is made at its vacant place. -/
theorem place?_of_vacancy (h : d.vacancy p = .ok l) :
    d.tree.CanHold l ∧ d.tree.at? l = none ∧ (d.put l .directory).place? p = some l := by
  obtain ⟨usable, outer, name, dir, segments, plain, leads, directory, rfl, free⟩ := vacancy_eq_ok h
  have room : d.tree.CanHold (dir ++ [name]) :=
    ⟨by simp, by rwa [List.dropLast_concat], Tree.not_directory free⟩
  have grows := put_grows (n := .directory) room (.inl free)
  refine ⟨room, free, place?_eq_some.2 ⟨usable, ?_⟩⟩
  have inside := (leads.grow grows).concat (grows.directory directory) plain (.inl (at?_put_self room))
  refine inside.congr (at?_put_self room) ?_
  rw [← segments, moves_filter]

/-- A directory is made where nothing was, and its path leads there. -/
theorem makeDirectory_eq_ok (h : d.makeDirectory p = .ok d') :
    ∃ l, d.tree.CanHold l ∧ d.tree.at? l = none ∧ d' = d.put l .directory ∧ d'.place? p = some l := by
  obtain ⟨l, vacant, rfl⟩ := vacancy_of_makeDirectory h
  obtain ⟨room, free, leads⟩ := place?_of_vacancy vacant
  exact ⟨l, room, free, rfl, leads⟩

theorem wrote_of_makeDirectory (h : d.makeDirectory p = .ok d') : Wrote [p] [] d d' := by
  obtain ⟨l, room, free, rfl, leads⟩ := makeDirectory_eq_ok h
  refine ⟨rfl, put_grows room (.inl free), fun _ => nofun, fun _ _ => nofun, ?_⟩
  intro m _
  by_cases same : m = l
  · subst same
    exact .inr ⟨free, at?_put_self room, p, List.mem_singleton_self p, leads⟩
  · exact .inl (at?_put_other room same)

/-! ## Directories and files -/

/-- What a chain of directories does for its first path. -/
theorem makeChain_cons_eq_ok {outer : List Path} (h : makeChain (p :: outer) d = (.ok (), d')) :
    d.makeDirectory p = .ok d' ∨
      (d.isDirectory p = true ∧ d' = d) ∨
      d.makeDirectory p = .error .notFound ∧ ∃ mid, makeChain outer d = (.ok (), mid) ∧
        (mid.makeDirectory p = .ok d' ∨ mid.isDirectory p = true ∧ d' = mid) := by
  have settled : ∀ {d : Disk} {fault : DiskFault},
      (if d.isDirectory p then ((.ok (), d) : Except DiskFault Unit × Disk) else (.error fault, d)) = (.ok (), d') →
        d.isDirectory p = true ∧ d' = d := by
    intro d fault h
    split at h
    · cases h
      exact ⟨‹_›, rfl⟩
    · cases h
  unfold makeChain at h
  dsimp only at h
  split at h
  · next made =>
    cases h
    exact .inl made
  · next missing =>
    split at h
    · cases h
    · next mid outside =>
      refine .inr (.inr ⟨missing, mid, outside, ?_⟩)
      split at h
      · next made =>
        cases h
        exact .inl made
      · exact .inr (settled h)
  · exact .inr (.inl (settled h))

theorem wrote_of_makeChain {ps : List Path} (h : makeChain ps d = (.ok (), d')) : Wrote ps [] d d' := by
  induction ps generalizing d d' with
  | nil =>
    cases h
    exact .refl d
  | cons p outer ih =>
    rcases makeChain_cons_eq_ok h with made | ⟨-, rfl⟩ | ⟨-, mid, outside, made | ⟨-, rfl⟩⟩
    · exact (wrote_of_makeDirectory made).mono (by simp)
    · exact (Wrote.refl d').mono (List.nil_subset _)
    · exact ((ih outside).append (wrote_of_makeDirectory made)).mono (by simp)
    · exact (ih outside).mono (List.subset_cons_self p outer)

/-- A path whose directories were made leads to one. -/
theorem isDirectory_of_makeChain {outer : List Path} (h : makeChain (p :: outer) d = (.ok (), d')) :
    d'.isDirectory p = true := by
  have new : ∀ {d : Disk}, d.makeDirectory p = .ok d' → d'.isDirectory p = true := by
    intro d made
    obtain ⟨l, room, -, rfl, leads⟩ := makeDirectory_eq_ok made
    exact isDirectory_iff.2 ⟨l, leads, at?_put_self room⟩
  rcases makeChain_cons_eq_ok h with made | ⟨there, rfl⟩ | ⟨-, mid, -, made | ⟨there, rfl⟩⟩
  · exact new made
  · exact there
  · exact new made
  · exact there

/-! ## Directories around a path -/

theorem mem_enclosing {steps : List Path.Step} {q : Path} :
    q ∈ enclosing steps ↔ ∃ n < steps.length, steps.take n ≠ [] ∧ steps.take n ≠ [.root] ∧ q = Path.ofSteps (steps.take n) := by
  unfold enclosing
  rw [List.mem_filterMap]
  constructor
  · rintro ⟨n, member, made⟩
    have short : n < steps.length := by simpa using member
    split at made
    · cases made
    · cases made
    · next nonempty notRoot =>
      cases made
      exact ⟨n, short, nonempty, notRoot, rfl⟩
  · rintro ⟨n, short, nonempty, notRoot, rfl⟩
    refine ⟨n, by simpa using short, ?_⟩
    split
    · next none => exact absurd none nonempty
    · next root => exact absurd root notRoot
    · rfl

/-- The directories around the first steps of a path are around the path. -/
theorem enclosing_take (steps : List Path.Step) (n : Nat) : enclosing (steps.take n) ⊆ enclosing steps := by
  intro q member
  obtain ⟨k, short, nonempty, notRoot, rfl⟩ := mem_enclosing.1 member
  rw [List.length_take, Nat.lt_min] at short
  have same : (steps.take n).take k = steps.take k := by rw [List.take_take, Nat.min_eq_left (Nat.le_of_lt short.1)]
  rw [same] at nonempty notRoot ⊢
  exact mem_enclosing.2 ⟨k, short.2, nonempty, notRoot, rfl⟩

/-- The parent of a path that has one itself is around it, and has the other steps of the path. -/
theorem parent_mem_enclosing {dir : Path} (h : p.parent? = some dir) (inner : dir.parent? ≠ none) :
    dir ∈ enclosing p.steps ∧ dir.steps = p.steps.take (p.steps.length - 1) := by
  have made : dir = Path.ofSteps (p.steps.take (p.steps.length - 1)) := by
    unfold Path.parent? at h
    split at h
    · cases h
    · cases h
    · rw [← List.dropLast_eq_take]
      exact (Option.some.inj h).symm
  have steps : dir.steps = p.steps.take (p.steps.length - 1) := by rw [made, Path.steps_ofSteps_take]
  refine ⟨mem_enclosing.2 ⟨p.steps.length - 1, ?_, ?_, ?_, made⟩, steps⟩
  · have : p.steps ≠ [] := by
      intro none
      unfold Path.parent? at h
      rw [none] at h
      cases h
    have := List.length_pos_iff.2 this
    omega
  · rw [← steps]
    intro none
    unfold Path.parent? at inner
    rw [none] at inner
    exact inner rfl
  · rw [← steps]
    intro root
    unfold Path.parent? at inner
    rw [root] at inner
    exact inner rfl

/-! ## Directories and files -/

theorem wrote_of_makeDirectories (h : d.makeDirectories p = (.ok (), d')) : Wrote (p :: enclosing p.steps) [] d d' := by
  unfold makeDirectories at h
  split at h
  · cases h
    exact (Wrote.refl d).mono (List.nil_subset _)
  · exact wrote_of_makeChain h

theorem attempt_eq_ok {result : Except DiskFault Disk} : d.attempt result = (.ok (), d') ↔ result = .ok d' := by
  unfold attempt
  cases result with
  | error fault => simp
  | ok changed => simp

/-- A file is written once its directory, if it has one, is made. -/
theorem writeInto_eq_ok : d.writeInto p content = (.ok (), d') ↔
    ∃ mid, p.parent?.elim (mid = d) (fun dir => d.makeDirectories dir = (.ok (), mid)) ∧ mid.write p content = .ok d' := by
  unfold writeInto
  cases p.parent? with
  | none => simp [attempt_eq_ok]
  | some dir =>
    rcases made : d.makeDirectories dir with ⟨fault | ⟨⟩, mid⟩
    · simp [made]
    · simp [made, attempt_eq_ok]

theorem wrote_of_writeInto (h : d.writeInto p content = (.ok (), d')) :
    Wrote (enclosing p.steps) [(p, content)] d d' := by
  obtain ⟨mid, made, last⟩ := writeInto_eq_ok.1 h
  have outside : Wrote (enclosing p.steps) [] d mid := by
    cases outer : p.parent? with
    | none =>
      rw [outer] at made
      cases made
      exact (Wrote.refl d).mono (List.nil_subset _)
    | some dir =>
      rw [outer] at made
      change d.makeDirectories dir = _ at made
      unfold makeDirectories at made
      split at made
      · cases made
        exact (Wrote.refl d).mono (List.nil_subset _)
      · next inner =>
        obtain ⟨member, steps⟩ := parent_mem_enclosing outer (by simpa using inner)
        refine (wrote_of_makeChain made).mono (List.cons_subset.2 ⟨member, ?_⟩)
        rw [steps]
        exact enclosing_take _ _
  have both := outside.append (wrote_of_write last)
  rwa [List.append_nil] at both

/-- A disk after all of some files were written holds them as `Wrote` says. -/
theorem wrote_of_writeAll (h : writeAll files d = (.ok (), d')) :
    Wrote (files.flatMap fun f => enclosing f.1.steps) files d d' := by
  induction files generalizing d with
  | nil =>
    cases h
    exact .refl _
  | cons f rest ih =>
    obtain ⟨p, content⟩ := f
    unfold writeAll at h
    cases first : d.writeInto p content with
    | mk result mid =>
      cases result with
      | error fault =>
        rw [first] at h
        cases h
      | ok _ =>
        rw [first] at h
        rw [List.flatMap_cons]
        exact (wrote_of_writeInto first).append (ih h)

end SandboxFetch.Disk
