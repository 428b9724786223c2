/-
  SandboxFetch.Proofs.Disk.Repeating — what could be written once can be written again.

  Where there are no links and paths have no `..`, each path has one place, which does not depend on
  what is on the disk (`Leads.eq_of_forward`). So a write that succeeded on one disk succeeds on every
  disk that has all that the first one has and nothing that the result does not have (`Between`), and
  leaves it so (`writeAll_between`). After all of a run was written again, only the content of the
  last file can differ (`at?_of_again`).
-/

import SandboxFetch.Proofs.Disk.Making
import SandboxFetch.Proofs.Path.Lexical

namespace SandboxFetch

open SandboxFetch.Path (Idle moves)

/-! ## Walks without links -/

namespace Tree

variable {t e : Tree} {hops : Nat} {dir l : Location} {segs : List String}

def Linkless (t : Tree) : Prop := ∀ l target, t.at? l ≠ some (.link target)

/-- Where a larger tree has a directory, there is nothing but a directory. -/
theorem Grows.eq_directory {n : Node} (grows : e.Grows t) (whole : t.at? l = some .directory) (there : e.at? l = some n) :
    n = .directory := by
  obtain ⟨n', after, rfl | ⟨_, _, -, rfl⟩⟩ := grows l n there
  · exact Option.some.inj (after.symm.trans whole)
  · rw [whole] at after
    cases after

/-- Where a larger tree has a file, there is nothing but a file. -/
theorem Grows.eq_file {n : Node} {content : String} (grows : e.Grows t) (whole : t.at? l = some (.file content))
    (there : e.at? l = some n) : ∃ old, n = .file old := by
  obtain ⟨n', after, rfl | ⟨old, _, rfl, -⟩⟩ := grows l n there
  · exact ⟨content, Option.some.inj (after.symm.trans whole)⟩
  · exact ⟨old, rfl⟩

namespace Leads

/-- A walk that does not leave its directory begins in one. -/
theorem directory_of_forward (h : t.Leads hops dir segs l) (forward : ".." ∉ segs) : t.at? dir = some .directory := by
  have parent : ∀ {s : String} {n : Node}, t.at? (dir ++ [s]) = some n → t.at? dir = some .directory := fun there =>
    directory_of_append _ there (by simp)
  induction h with
  | stop there => exact there
  | stay _ _ ih => exact ih (fun up => forward (List.mem_cons_of_mem _ up)) parent
  | up _ _ => exact absurd List.mem_cons_self forward
  | down _ there _ _ => exact parent there
  | file _ there => exact parent there
  | follow _ there _ _ => exact parent there

/-- Without links a walk ends where its segments lead by themselves. -/
theorem eq_of_linkless (linkless : t.Linkless) (h : t.Leads hops dir segs l) : l = (moves segs).foldl Location.move dir := by
  induction h with
  | stop _ => rfl
  | stay idle _ ih => rw [ih, Path.moves_idle idle]
  | up _ ih => rw [ih, Path.moves_cons (by decide), List.foldl_cons, Location.move, if_pos rfl]
  | down plain _ _ ih => rw [ih, Path.moves_cons plain.1, List.foldl_cons, Location.move, if_neg plain.2.1]
  | file plain _ => rw [Path.moves_cons plain.1, List.foldl_cons, Location.move, if_neg plain.2.1]; rfl
  | follow _ there _ _ => exact absurd there (linkless _ _)

/-- Without links and `..` a walk ends below its directory, at the names that it was given. -/
theorem eq_of_forward (linkless : t.Linkless) (h : t.Leads hops dir segs l) (forward : ".." ∉ segs) :
    l = dir ++ moves segs := by
  have clean : ".." ∉ moves segs := fun up => forward (List.mem_of_mem_filter up)
  rw [h.eq_of_linkless linkless, Path.foldl_move_of_forward clean]

/-- What a larger tree leads to, a smaller one that has it leads to as well. -/
theorem shrink (grows : e.Grows t) (linkless : t.Linkless) (h : t.Leads hops dir segs l) (forward : ".." ∉ segs)
    (there : e.HasFile l) : e.Leads hops dir segs l := by
  induction h with
  | stop whole =>
    rcases there with there | ⟨content, there⟩
    · exact .stop there
    · cases grows.eq_directory whole there
  | stay idle _ ih => exact .stay idle (ih (fun up => forward (List.mem_cons_of_mem _ up)) there)
  | up _ _ => exact absurd List.mem_cons_self forward
  | down plain _ _ ih =>
    have onwards : ".." ∉ _ := fun up => forward (List.mem_cons_of_mem _ up)
    have inner := ih onwards there
    exact .down plain (inner.directory_of_forward onwards) inner
  | file plain whole =>
    rcases there with there | ⟨content, there⟩
    · obtain ⟨old, other⟩ := grows.eq_file whole there
      cases other
    · exact .file plain there
  | follow _ whole _ _ => exact absurd whole (linkless _ _)

end Leads

/-- What a walk comes to that something is missing for. -/
def Misses (result : Except DiskFault Place) : Prop := (∃ m, result = .ok (.vacant m)) ∨ result = .error .notFound

theorem misses_of_free {follow : Location → List String → Except DiskFault Place} {s : String} {rest : List String}
    (plain : Plain s) (free : t.at? (dir ++ [s]) = none) : Misses (t.walkWith follow dir (s :: rest)) := by
  rw [walkWith_plain plain, free]
  dsimp only
  split
  · exact .inl ⟨_, rfl⟩
  · exact .inr rfl

/-- Where a smaller tree does not have what a larger one leads to, something on the way is missing. -/
theorem misses_of_leads (grows : e.Grows t) (linkless : t.Linkless) (h : t.Leads hops dir segs l)
    (forward : ".." ∉ segs) (free : e.at? l = none) : Misses (e.walk hops dir segs) := by
  induction h with
  | @stop hops dir _ =>
    obtain ⟨follow, same⟩ := e.walk_eq_walkWith hops
    rw [same, walkWith, if_neg (not_directory free)]
    exact .inr rfl
  | @stay hops dir l s rest idle _ ih =>
    obtain ⟨follow, same⟩ := e.walk_eq_walkWith hops
    have onwards := ih (fun up => forward (List.mem_cons_of_mem _ up)) free
    rw [same] at onwards ⊢
    rwa [walkWith_idle idle]
  | up _ _ => exact absurd List.mem_cons_self forward
  | @down hops dir l s rest plain whole _ ih =>
    obtain ⟨follow, same⟩ := e.walk_eq_walkWith hops
    have onwards := ih (fun up => forward (List.mem_cons_of_mem _ up)) free
    rw [same] at onwards ⊢
    cases there : e.at? (dir ++ [s]) with
    | none => exact misses_of_free plain there
    | some n =>
      obtain rfl := grows.eq_directory whole there
      rwa [walkWith_plain plain, there]
  | @file hops dir s content plain _ =>
    obtain ⟨follow, same⟩ := e.walk_eq_walkWith hops
    rw [same]
    exact misses_of_free plain free
  | follow _ whole _ _ => exact absurd whole (linkless _ _)

/-- Where only the file is missing that a larger tree leads to, a walk ends at its vacant place. -/
theorem walk_eq_vacant {content : String} (linkless : t.Linkless) (h : t.Leads hops dir segs l)
    (forward : ".." ∉ segs) (file : t.at? l = some (.file content)) (free : e.at? l = none)
    (parent : e.at? l.dropLast = some .directory) : e.walk hops dir segs = .ok (.vacant l) := by
  induction h with
  | stop whole =>
    rw [whole] at file
    cases file
  | @stay hops dir l s rest idle _ ih =>
    obtain ⟨follow, same⟩ := e.walk_eq_walkWith hops
    have onwards := ih (fun up => forward (List.mem_cons_of_mem _ up)) file free parent
    rw [same] at onwards ⊢
    rw [walkWith_idle idle, onwards]
  | up _ _ => exact absurd List.mem_cons_self forward
  | @down hops dir l s rest plain whole way ih =>
    have further : ".." ∉ rest := fun up => forward (List.mem_cons_of_mem _ up)
    -- the directory is the parent of the file or stands around it
    have there : e.at? (dir ++ [s]) = some .directory := by
      obtain rfl := way.eq_of_forward linkless further
      rcases List.eq_nil_or_concat (moves rest) with none | ⟨outer, name, more⟩
      · rw [none, List.append_nil, whole] at file
        cases file
      · rw [more, List.concat_eq_append, ← List.append_assoc, List.dropLast_concat] at parent
        by_cases empty : outer = []
        · rwa [empty, List.append_nil] at parent
        · exact directory_of_append outer parent empty
    obtain ⟨follow, same⟩ := e.walk_eq_walkWith hops
    have onwards := ih further file free parent
    rw [same] at onwards ⊢
    rw [walkWith_plain plain, there]
    exact onwards
  | @file hops dir s content plain _ =>
    obtain ⟨follow, same⟩ := e.walk_eq_walkWith hops
    rw [List.dropLast_concat] at parent
    rw [same, walkWith_plain plain, free]
    exact if_pos ⟨rfl, parent⟩
  | follow _ whole _ _ => exact absurd whole (linkless _ _)

end Tree

namespace Disk

variable {d d' t e e' : Disk} {p q r : Path} {l : Location} {content : String}

/-! ## Disks between two others -/

/-- A disk that has all that one disk has, and nothing that another one has not. -/
structure Between (d t e : Disk) : Prop where
  here : e.here = d.here
  outer : t.here = d.here
  lower : d.tree.Grows e.tree
  upper : e.tree.Grows t.tree

theorem Between.same (b : Between d t e) : e.here = t.here := b.here.trans b.outer.symm

theorem Between.place? (b : Between d t e) (h : d.place? p = some l) : e.place? p = some l := place?_grow h b.here b.lower

theorem isDirectory_grow (there : d.isDirectory p = true) (same : d'.here = d.here) (grows : d.tree.Grows d'.tree) :
    d'.isDirectory p = true := by
  obtain ⟨l, leads, directory⟩ := isDirectory_iff.1 there
  exact isDirectory_iff.2 ⟨l, place?_grow leads same grows, grows.directory directory⟩

theorem Between.isDirectory (b : Between d t e) (there : d.isDirectory p = true) : e.isDirectory p = true :=
  isDirectory_grow there b.here b.lower

/-- A path leads to its place on a smaller disk that has something there. -/
theorem place?_shrink (linkless : t.tree.Linkless) (forward : p.Forward) (same : e.here = t.here)
    (grows : e.tree.Grows t.tree) (leads : t.place? p = some l) (there : e.tree.HasFile l) : e.place? p = some l := by
  obtain ⟨usable, way⟩ := place?_eq_some.1 leads
  refine place?_eq_some.2 ⟨usable, ?_⟩
  rw [start_congr same]
  exact way.shrink grows linkless forward there

/-- A node that is put into both disks. -/
theorem Between.put {n n' n'' : Node} (b : Between d t e) (room : d.tree.CanHold l) (room' : e.tree.CanHold l)
    (succeeds : n.Succeeds n') (succeeds' : n'.Succeeds n'') (whole : t.tree.at? l = some n'') :
    Between (d.put l n) t (e.put l n') where
  here := b.here
  outer := b.outer
  lower := by
    intro m before there
    by_cases same : m = l
    · subst same
      rw [at?_put_self room] at there
      cases there
      exact ⟨n', at?_put_self room', succeeds⟩
    · rw [at?_put_other room same] at there
      rw [at?_put_other room' same]
      exact b.lower m before there
  upper := by
    intro m before there
    by_cases same : m = l
    · subst same
      rw [at?_put_self room'] at there
      cases there
      exact ⟨n'', whole, succeeds'⟩
    · rw [at?_put_other room' same] at there
      exact b.upper m before there

/-- A node that is put into the smaller disk only, since the larger one has it. -/
theorem Between.put_lower {n n' : Node} (b : Between d t e) (room : d.tree.CanHold l) (succeeds : n.Succeeds n')
    (there : e.tree.at? l = some n') : Between (d.put l n) t e where
  here := b.here
  outer := b.outer
  upper := b.upper
  lower := by
    intro m before known
    by_cases same : m = l
    · subst same
      rw [at?_put_self room] at known
      cases known
      exact ⟨n', there, succeeds⟩
    · rw [at?_put_other room same] at known
      exact b.lower m before known

/-! ## One file -/

/-- A file that could be written can be written again, with other content. -/
theorem write_between {content' : String} (linkless : t.tree.Linkless) (forward : p.Forward) (b : Between d t e)
    (done : d.write p content = .ok d') (within : d'.tree.Grows t.tree) :
    ∃ e', e.write p content' = .ok e' ∧ Between d' t e' := by
  obtain ⟨l, room, before, rfl, leads⟩ := write_eq_ok done
  obtain ⟨new, whole⟩ := within.file (at?_put_self room)
  have leads' : t.place? p = some l := place?_grow leads b.outer within
  have succeeds : ∀ a b : String, (Node.file a).Succeeds (.file b) := fun a b => .inr ⟨a, b, rfl, rfl⟩
  have parent := b.lower.directory room.2.1
  cases there : e.tree.at? l with
  | some n =>
    obtain ⟨old, rfl⟩ := b.upper.eq_file whole there
    have room' : e.tree.CanHold l := ⟨room.1, parent, by simp [there]⟩
    have located := locate_of_place? (place?_shrink linkless forward b.same b.upper leads' (.inr ⟨old, there⟩))
    refine ⟨e.put l (.file content'), ?_, b.put room room' (succeeds _ _) (succeeds _ _) whole⟩
    unfold write
    rw [located]
    exact if_neg room'.2.2
  | none =>
    have room' : e.tree.CanHold l := ⟨room.1, parent, by simp [there]⟩
    obtain ⟨usable, way⟩ := place?_eq_some.1 leads'
    have located : e.locate p = .ok (.vacant l) := by
      unfold locate
      rw [usable, start_congr b.same]
      exact Tree.walk_eq_vacant linkless way forward whole there parent
    refine ⟨e.put l (.file content'), ?_, b.put room room' (succeeds _ _) (succeeds _ _) whole⟩
    unfold write
    rw [located]

/-! ## One directory -/

/-- A name that is free in a directory makes room for a new node. -/
theorem vacancy_of_leads {outer : List String} {name : String} {dir : Location} (usable : pathFault? p = none)
    (segments : p.segments.filter (· ≠ "") = outer ++ [name]) (plain : Tree.Plain name)
    (leads : d.tree.Leads hopLimit (d.start p) outer dir) (directory : d.tree.at? dir = some .directory)
    (free : d.tree.at? (dir ++ [name]) = none) : d.vacancy p = .ok (dir ++ [name]) := by
  have named : ¬ (name = "." ∨ name = "..") := not_or.2 ⟨(not_or.1 plain.1).2, plain.2.1⟩
  rw [vacancy_of_found usable segments (Tree.walk_of_leads leads), if_neg (not_not.2 directory), if_neg named,
    if_neg (Nat.not_lt.2 plain.2.2), if_neg (by simp [free])]

/-- A directory that could be made can be made again, unless it is there. -/
theorem makeDirectory_between (linkless : t.tree.Linkless) (forward : p.Forward) (b : Between d t e)
    (done : d.makeDirectory p = .ok d') (within : d'.tree.Grows t.tree) :
    ∃ e', (e.makeDirectory p = .ok e' ∨ e.isDirectory p = true ∧ e' = e) ∧ Between d' t e' := by
  obtain ⟨l, vacant, rfl⟩ := vacancy_of_makeDirectory done
  obtain ⟨room, -, leads⟩ := place?_of_vacancy vacant
  have whole := within.directory (at?_put_self room)
  cases there : e.tree.at? l with
  | some n =>
    obtain rfl := b.upper.eq_directory whole there
    have leads' :=
      place?_shrink linkless forward b.same b.upper (place?_grow leads b.outer within) (.inl there)
    exact ⟨e, .inr ⟨isDirectory_iff.2 ⟨l, leads', there⟩, rfl⟩, b.put_lower room (.inl rfl) there⟩
  | none =>
    obtain ⟨usable, outer, name, dir, segments, plain, way, directory, rfl, -⟩ := vacancy_eq_ok vacant
    have vacant' : e.vacancy p = .ok (dir ++ [name]) := by
      refine vacancy_of_leads usable segments plain ?_ (b.lower.directory directory) there
      rw [start_congr b.here]
      exact way.grow b.lower
    refine ⟨e.put (dir ++ [name]) .directory, .inl ?_, b.put room ?_ (.inl rfl) (.inl rfl) whole⟩
    · unfold makeDirectory
      rw [vacant']
      rfl
    · exact (place?_of_vacancy vacant').1

theorem vacancy_of_misses {outer : List String} {name : String} (usable : pathFault? p = none)
    (segments : p.segments.filter (· ≠ "") = outer ++ [name])
    (misses : Tree.Misses (d.tree.walk hopLimit (d.start p) outer)) : d.vacancy p = .error .notFound := by
  unfold vacancy
  rcases misses with ⟨m, vacant⟩ | missing
  · simp only [usable, segments, List.getLast?_concat, List.dropLast_concat, vacant]
  · simp only [usable, segments, List.getLast?_concat, List.dropLast_concat, missing]

/-- A path of one step more begins like the shorter one, and moves by one name more. -/
theorem moves_of_steps {x : Path.Step} (inner : q.isEmpty = false) (steps : p.steps = q.steps ++ [x]) :
    p.isAbsolute = q.isAbsolute ∧ moves p.segments = moves q.segments ++ [x.text] ∧ ¬ Idle x.text := by
  have nonempty : q.steps ≠ [] := by
    intro none
    rw [Path.isEmpty_of_steps_eq_nil none] at inner
    cases inner
  obtain ⟨k, long⟩ := Nat.exists_eq_succ_of_ne_zero fun zero => nonempty (List.length_eq_zero_iff.1 zero)
  have at_ : p.steps[k + 1]? = some x := by
    rw [steps, List.getElem?_append_right (by omega), long]
    simp
  obtain ⟨segment, busy, -⟩ := Path.of_mem_filterMap (Path.mem_of_getElem?_succ at_)
  refine ⟨?_, ?_, busy⟩
  · rw [Path.isAbsolute_eq, Path.isAbsolute_eq, steps, List.head?_append_of_ne_nil _ nonempty]
  · rw [Path.moves_segments, Path.moves_segments, steps, List.filterMap_append, List.filterMap_cons_some segment]
    rfl

/-- A directory cannot be made when one that its path has around it is missing. -/
theorem makeDirectory_of_missing {x : Path.Step} (linkless : t.tree.Linkless) (forward : p.Forward)
    (same : e.here = t.here) (grows : e.tree.Grows t.tree) (whole : t.isDirectory p = true)
    (around : t.isDirectory q = true) (steps : p.steps = q.steps ++ [x]) (missing : e.isDirectory q = false) :
    e.makeDirectory p = .error .notFound := by
  obtain ⟨l, leads, directory⟩ := isDirectory_iff.1 whole
  obtain ⟨usable, way⟩ := place?_eq_some.1 leads
  obtain ⟨m, leads', directory'⟩ := isDirectory_iff.1 around
  obtain ⟨usable', way'⟩ := place?_eq_some.1 leads'
  have inner : q.isEmpty = false := by
    cases empty : q.isEmpty with
    | false => rfl
    | true =>
      unfold pathFault? at usable'
      rw [if_pos empty] at usable'
      cases usable'
  obtain ⟨absolute, further, busy⟩ := moves_of_steps inner steps
  have start : t.start q = t.start p := by
    unfold Disk.start
    rw [absolute]
  have backward : q.Forward := forward.take (n := q.steps.length) (by rw [steps, List.take_left])
  have top := way'.eq_of_forward linkless backward
  rcases List.eq_nil_or_concat (p.segments.filter (· ≠ "")) with none | ⟨outer, name, segments⟩
  · have still : moves p.segments = [] := by rw [← moves_filter, none]; rfl
    rw [further] at still
    simp at still
  · rw [List.concat_eq_append] at segments
    have clean : ".." ∉ outer ++ [name] := by
      rw [← segments]
      exact fun up => forward (List.mem_of_mem_filter up)
    obtain ⟨clean', named⟩ := not_or.1 (fun up => clean (List.mem_append.2 up))
    have walked : t.tree.Leads hopLimit (t.start p) (outer ++ [name]) l :=
      way.congr directory (by rw [← segments, moves_filter])
    obtain ⟨dir, before, there⟩ := walked.before rfl (fun up => named (List.mem_singleton.2 up.symm)) directory
    -- the directory before the last segment is the one around the path, or the path itself
    have prefixed : m <+: dir := by
      rw [top, before.eq_of_forward linkless clean', start]
      refine (List.prefix_append_right_inj _).2 ?_
      have all : moves outer ++ moves [name] = moves q.segments ++ [x.text] := by
        rw [← Path.moves_append, ← segments, moves_filter, further]
      refine List.prefix_of_prefix_length_le (List.prefix_append _ [x.text])
        (all ▸ List.prefix_append _ (moves [name])) ?_
      have counted := congrArg List.length all
      have last : (moves [name]).length ≤ 1 := List.length_filter_le _ _
      simp only [List.length_append, List.length_singleton] at counted
      omega
    -- were that directory there, all that stands around it would be too
    have free : e.tree.at? dir = none := by
      by_contra known
      obtain ⟨n, known⟩ := Option.ne_none_iff_exists'.1 known
      obtain rfl := grows.eq_directory there known
      obtain ⟨names, rfl⟩ := prefixed
      have known' : e.tree.at? m = some .directory := by
        by_cases more : names = []
        · rwa [more, List.append_nil] at known
        · exact Tree.directory_of_append names known more
      have found := isDirectory_iff.2 ⟨m, place?_shrink linkless backward same grows leads' (.inl known'), known'⟩
      rw [missing] at found
      cases found
    have misses := Tree.misses_of_leads grows linkless before clean' free
    rw [← start_congr same] at misses
    unfold makeDirectory
    rw [vacancy_of_misses usable segments misses]
    rfl

/-! ## Directories -/

/-- What a chain of directories needs for its first path. -/
theorem makeChain_cons {outer : List Path} (forward : p.Forward) (h : d.makeDirectory p = .ok d' ∨
      (d.isDirectory p = true ∧ d' = d) ∨
      d.makeDirectory p = .error .notFound ∧ ∃ mid, makeChain outer d = (.ok (), mid) ∧
        (mid.makeDirectory p = .ok d' ∨ mid.isDirectory p = true ∧ d' = mid)) :
    makeChain (p :: outer) d = (.ok (), d') := by
  unfold makeChain
  rcases h with made | ⟨there, rfl⟩ | ⟨missing, mid, outside, made | ⟨there, rfl⟩⟩
  · rw [made]
  · cases made : d'.makeDirectory p with
    | ok changed =>
      rw [not_isDirectory_of_makeDirectory made] at there
      cases there
    | error fault =>
      have told := makeDirectory_ne_notFound there forward
      rw [made] at told
      cases fault <;> first | exact absurd rfl told | simp only [there, if_true]
  · simp only [missing, outside, made]
  · simp only [missing, outside]
    cases made : d'.makeDirectory p with
    | ok changed =>
      rw [not_isDirectory_of_makeDirectory made] at there
      cases there
    | error fault => simp only [there, if_true]

theorem makeChain_cons_between {outer : List Path} (linkless : t.tree.Linkless) (forward : p.Forward) (b : Between d t e)
    (outside : ∀ mid, makeChain outer d = (.ok (), mid) → mid.tree.Grows t.tree →
      ∃ emid, makeChain outer e = (.ok (), emid) ∧ Between mid t emid ∧ (e.makeDirectory p = .error .notFound ∨ emid = e))
    (done : makeChain (p :: outer) d = (.ok (), d')) (within : d'.tree.Grows t.tree) :
    ∃ e', makeChain (p :: outer) e = (.ok (), e') ∧ Between d' t e' := by
  rcases makeChain_cons_eq_ok done with made | ⟨there, rfl⟩ | ⟨-, mid, chain, last⟩
  · obtain ⟨e', made', b'⟩ := makeDirectory_between linkless forward b made within
    refine ⟨e', makeChain_cons forward ?_, b'⟩
    exact made'.imp_right .inl
  · exact ⟨e, makeChain_cons forward (.inr (.inl ⟨b.isDirectory there, rfl⟩)), b⟩
  · have inside : mid.tree.Grows d'.tree := by
      rcases last with made | ⟨-, rfl⟩
      · exact (wrote_of_makeDirectory made).grows
      · exact .refl _
    obtain ⟨emid, chain', bmid, all⟩ := outside mid chain (inside.trans within)
    obtain ⟨e', last', b'⟩ : ∃ e', (emid.makeDirectory p = .ok e' ∨ emid.isDirectory p = true ∧ e' = emid) ∧
        Between d' t e' := by
      rcases last with made | ⟨there, rfl⟩
      · exact makeDirectory_between linkless forward bmid made within
      · exact ⟨emid, .inr ⟨bmid.isDirectory there, rfl⟩, bmid⟩
    refine ⟨e', makeChain_cons forward ?_, b'⟩
    rcases all with missing | rfl
    · exact .inr (.inr ⟨missing, emid, chain', last'⟩)
    · exact last'.imp_right .inl

theorem makeChain_nil_between {mid : Disk} (b : Between d t e) (done : makeChain [] d = (.ok (), mid)) :
    ∃ emid, makeChain [] e = (.ok (), emid) ∧ Between mid t emid ∧ (e.makeDirectory p = .error .notFound ∨ emid = e) := by
  cases done
  exact ⟨e, rfl, b, .inr rfl⟩

/-- A chain of directories for the first steps of a path that could be made can be made again. -/
theorem makeChain_between {n : Nat} (linkless : t.tree.Linkless) (forward : r.Forward) (b : Between d t e)
    (first : p.steps = r.steps.take n) (done : makeChain (p :: enclosing (r.steps.take n)) d = (.ok (), d'))
    (within : d'.tree.Grows t.tree) :
    ∃ e', makeChain (p :: enclosing (r.steps.take n)) e = (.ok (), e') ∧ Between d' t e' := by
  induction n generalizing p d' with
  | zero =>
    refine makeChain_cons_between linkless (forward.take first) b (fun mid chain _ => ?_) done within
    exact makeChain_nil_between b chain
  | succ n ih =>
    cases at_ : r.steps[n]? with
    | none =>
      have same : r.steps.take (n + 1) = r.steps.take n := by
        rw [List.take_add_one, at_, Option.toList_none, List.append_nil]
      rw [same] at first done ⊢
      exact ih first done within
    | some x =>
      have short : n < r.steps.length := (List.getElem?_eq_some_iff.1 at_).1
      have onward := forward.take first
      have there : t.isDirectory p = true :=
        isDirectory_grow (isDirectory_of_makeChain done) (b.outer.trans (wrote_of_makeChain done).here.symm) within
      rw [enclosing_take_succ short] at done ⊢
      refine makeChain_cons_between linkless onward b (fun mid chain inside => ?_) done within
      cases around : directoryOf (r.steps.take n) with
      | none =>
        rw [around, enclosing_of_directoryOf around] at chain
        rw [enclosing_of_directoryOf around]
        exact makeChain_nil_between b chain
      | some q =>
        rw [around] at chain
        obtain ⟨nonempty, rfl⟩ := directoryOf_eq_some around
        have steps := Path.steps_ofSteps_take r n
        obtain ⟨emid, chain', bmid⟩ := ih steps chain inside
        refine ⟨emid, chain', bmid, ?_⟩
        -- a parent that is there is left as it is; without one the directory cannot be made before its parent
        cases known : e.isDirectory (Path.ofSteps (r.steps.take n)) with
        | true => exact .inr (eq_of_makeChain known (forward.take steps) chain')
        | false =>
          have there' : t.isDirectory (Path.ofSteps (r.steps.take n)) = true :=
            isDirectory_grow (isDirectory_of_makeChain chain) (b.outer.trans (wrote_of_makeChain chain).here.symm) inside
          have further : p.steps = (Path.ofSteps (r.steps.take n)).steps ++ [x] := by
            rw [first, List.take_add_one, at_, Option.toList_some, steps]
          exact .inl (makeDirectory_of_missing linkless onward b.same b.upper there there' further known)

/-- Directories that could be made can be made again. -/
theorem makeDirectories_between (linkless : t.tree.Linkless) (forward : p.Forward) (b : Between d t e)
    (done : d.makeDirectories p = (.ok (), d')) (within : d'.tree.Grows t.tree) :
    ∃ e', e.makeDirectories p = (.ok (), e') ∧ Between d' t e' := by
  unfold makeDirectories at done ⊢
  split at done
  · next outermost =>
    cases done
    exact ⟨e, if_pos outermost, b⟩
  · next inner =>
    have whole : p.steps = p.steps.take p.steps.length := List.take_length.symm
    rw [whole] at done
    obtain ⟨e', made, b'⟩ := makeChain_between linkless forward b whole done within
    rw [← whole] at made
    exact ⟨e', (if_neg inner).trans made, b'⟩

/-! ## Files -/

theorem forward_of_parent (forward : p.Forward) (h : p.parent? = some q) : q.Forward := by
  refine forward.take (n := p.steps.length - 1) ?_
  unfold Path.parent? at h
  split at h
  · cases h
  · cases h
  · cases h
    rw [List.dropLast_eq_take, Path.steps_ofSteps_take]

/-- A file that could be written into its directory can be written again. -/
theorem writeInto_between (linkless : t.tree.Linkless) (forward : p.Forward) (b : Between d t e)
    (done : d.writeInto p content = (.ok (), d')) (within : d'.tree.Grows t.tree) :
    ∃ e', e.writeInto p content = (.ok (), e') ∧ Between d' t e' := by
  obtain ⟨mid, made, last⟩ := writeInto_eq_ok.1 done
  have inside : mid.tree.Grows t.tree := (wrote_of_write last).grows.trans within
  obtain ⟨emid, made', bmid⟩ : ∃ emid, p.parent?.elim (emid = e) (fun dir => e.makeDirectories dir = (.ok (), emid)) ∧
      Between mid t emid := by
    cases outer : p.parent? with
    | none =>
      rw [outer] at made
      cases made
      exact ⟨e, rfl, b⟩
    | some dir =>
      rw [outer] at made
      exact makeDirectories_between linkless (forward_of_parent forward outer) b made inside
  obtain ⟨e', last', b'⟩ := write_between linkless forward bmid last within
  exact ⟨e', writeInto_eq_ok.2 ⟨emid, made', last'⟩, b'⟩

/-- Files that could be written can be written again. -/
theorem writeAll_between {files : List (Path × String)} (linkless : t.tree.Linkless)
    (forward : ∀ f ∈ files, f.1.Forward) (b : Between d t e) (done : writeAll files d = (.ok (), d'))
    (within : d'.tree.Grows t.tree) :
    ∃ e', writeAll files e = (.ok (), e') ∧ Between d' t e' := by
  induction files generalizing d e with
  | nil =>
    cases done
    exact ⟨e, rfl, b⟩
  | cons f rest ih =>
    obtain ⟨p, content⟩ := f
    unfold writeAll at done ⊢
    rcases first : d.writeInto p content with ⟨fault | ⟨⟩, mid⟩
    · rw [first] at done
      cases done
    · rw [first] at done
      obtain ⟨emid, first', bmid⟩ := writeInto_between linkless (forward _ List.mem_cons_self) b first
        ((wrote_of_writeAll done).grows.trans within)
      rw [first']
      exact ih (fun f member => forward f (List.mem_cons_of_mem _ member)) bmid done

/-! ## All of it again -/

/-- A disk that holds what was written is written over with the same files but the last one. Then
    nothing changes but the content of that one, even if some of what is there was taken away before. -/
theorem at?_of_again {dirs dirs' : List Path} {files : List (Path × String)} {content' : String} (b : Between t t e')
    (first : Wrote dirs (files ++ [(p, content)]) d t) (again : Wrote dirs' (files ++ [(p, content')]) e e')
    (start : ∀ l, e.tree.at? l = t.tree.at? l ∨ e.tree.at? l = none) :
    ∃ place, t.place? p = some place ∧ t.tree.at? place = some (.file content) ∧
      ∀ l, e'.tree.at? l = if l = place then some (.file content') else t.tree.at? l := by
  obtain ⟨place, leads⟩ := first.reached (p, content) (by simp)
  have last : ∀ (w : Disk) (c : String), w.place? p = some place → ∀ l,
      w.lastAt (files ++ [(p, c)]) l = if l = place then some c else w.lastAt files l := by
    intro w c leads l
    rw [lastAt_append, lastAt_single leads]
    split <;> rfl
  have same : ∀ l, e'.lastAt files l = t.lastAt files l := by
    refine lastAt_congr fun f member => ?_
    obtain ⟨m, leads⟩ := first.reached f (List.mem_append_left _ member)
    rw [leads, b.place? leads]
  refine ⟨place, leads, first.written _ _ (by rw [last t content leads, if_pos rfl]), fun l => ?_⟩
  -- the place of the last file, then one that another file leads to, then one that none leads to
  by_cases own : l = place
  · rw [if_pos own]
    exact again.written _ _ (by rw [last e' content' (b.place? leads), if_pos own])
  · rw [if_neg own]
    cases listed : t.lastAt files l with
    | some c =>
      rw [again.written l c (by rw [last e' content' (b.place? leads), if_neg own, same, listed]),
        first.written l c (by rw [last t content leads, if_neg own, listed])]
    | none =>
      have unlisted : e'.lastAt (files ++ [(p, content')]) l = none := by
        rw [last e' content' (b.place? leads), if_neg own, same, listed]
      rcases again.elsewhere l unlisted with kept | ⟨-, made, -⟩
      · rcases start l with before | gone
        · rw [kept, before]
        · rw [kept, gone, b.lower.none (kept.trans gone)]
      · rw [made, b.upper.directory made]

end Disk

end SandboxFetch
