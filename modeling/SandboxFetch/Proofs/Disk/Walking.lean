/-
  SandboxFetch.Proofs.Disk.Walking — walks that end somewhere, step by step.

  `Leads` has one rule for each kind of step that a walk takes, and a walk finds a place exactly
  when the rules lead there (`walk_eq_found`). A tree grows when it gets new nodes and new contents
  of files while directories and links stay (`Grows`); what a walk found it finds again after the
  tree grew (`Leads.grow`), and where a walk ended at a vacant place it finds what is put there
  (`leads_of_vacant`). A walk to a directory does not look at empty segments and `.`, so two paths
  with the same other segments lead to the same one (`Leads.congr`).
-/

import SandboxFetch.Disk.Basic
import SandboxFetch.Proofs.Path.Segments

namespace SandboxFetch

open SandboxFetch.Path (Idle moves)

variable {t t' t'' : Tree} {l m dir top : Location} {hops : Nat} {s : String} {segs rest xs ys : List String}

/-! ## Trees that grow -/

/-- A node that can have taken the place of another one: the same, or a file for a file. -/
def Node.Succeeds (n n' : Node) : Prop := n' = n ∨ ∃ old new, n = .file old ∧ n' = .file new

namespace Tree

def Grows (t t' : Tree) : Prop := ∀ l n, t.at? l = some n → ∃ n', t'.at? l = some n' ∧ n.Succeeds n'

theorem Grows.refl (t : Tree) : t.Grows t := fun _ n h => ⟨n, h, .inl rfl⟩

theorem Grows.trans (first : t.Grows t') (last : t'.Grows t'') : t.Grows t'' := by
  intro l n h
  obtain ⟨n', h', same | ⟨a, b, rfl, rfl⟩⟩ := first l n h
  · subst same
    exact last l n' h'
  · obtain ⟨n'', h'', same | ⟨b', c, -, rfl⟩⟩ := last l _ h'
    · exact ⟨n'', h'', .inr ⟨a, b, rfl, same⟩⟩
    · exact ⟨_, h'', .inr ⟨a, c, rfl, rfl⟩⟩

theorem Grows.directory (grows : t.Grows t') (h : t.at? l = some .directory) : t'.at? l = some .directory := by
  obtain ⟨n', h', rfl | ⟨_, _, other, -⟩⟩ := grows l _ h
  · exact h'
  · cases other

theorem Grows.link {target : Path} (grows : t.Grows t') (h : t.at? l = some (.link target)) :
    t'.at? l = some (.link target) := by
  obtain ⟨n', h', rfl | ⟨_, _, other, -⟩⟩ := grows l _ h
  · exact h'
  · cases other

theorem Grows.file {content : String} (grows : t.Grows t') (h : t.at? l = some (.file content)) :
    ∃ new, t'.at? l = some (.file new) := by
  obtain ⟨n', h', rfl | ⟨_, new, -, rfl⟩⟩ := grows l _ h
  · exact ⟨content, h'⟩
  · exact ⟨new, h'⟩

theorem Grows.none (grows : t.Grows t') (h : t'.at? l = none) : t.at? l = none := by
  cases before : t.at? l with
  | none => rfl
  | some n =>
    obtain ⟨n', after, -⟩ := grows l n before
    rw [h] at after
    cases after

/-! ## Parents -/

/-- Whatever there is stands in a directory. -/
theorem parent_of_at? {n : Node} (h : t.at? l = some n) (inner : l ≠ []) : t.at? l.dropLast = some .directory := by
  unfold at? nodeAt? at h
  rw [if_neg inner] at h
  obtain ⟨before, after, entries, -⟩ := List.lookup_eq_some_iff.1 h
  exact (t.grounded (l, n) (by simp [entries])).2

/-- A parent of a node is a directory. -/
theorem directory_of_append {n : Node} (names : List String) (h : t.at? (top ++ names) = some n) (more : names ≠ []) :
    t.at? top = some .directory := by
  induction names using List.reverseRecOn generalizing n with
  | nil => exact absurd rfl more
  | append_singleton names name ih =>
    have parent := parent_of_at? h (by simp)
    rw [← List.append_assoc, List.dropLast_concat] at parent
    by_cases empty : names = []
    · rw [empty, List.append_nil] at parent
      exact parent
    · exact ih parent empty

theorem isBelow_iff : l.isBelow top = true ↔ ∃ names, names ≠ [] ∧ l = top ++ names := by
  unfold Location.isBelow
  rw [Bool.and_eq_true, List.isPrefixOf_iff_prefix, bne_iff_ne]
  constructor
  · rintro ⟨⟨names, rfl⟩, other⟩
    refine ⟨names, fun empty => other ?_, rfl⟩
    rw [empty, List.append_nil]
  · rintro ⟨names, more, rfl⟩
    refine ⟨List.prefix_append _ _, fun same => more ?_⟩
    exact List.append_right_eq_self.1 same

theorem not_directory (free : t.at? l = none) : t.at? l ≠ some .directory := by simp [free]

/-- Where no directory is, there is nothing below. -/
theorem at?_below (h : t.at? top ≠ some .directory) (below : l.isBelow top = true) : t.at? l = none := by
  obtain ⟨names, more, rfl⟩ := isBelow_iff.1 below
  cases there : t.at? (top ++ names) with
  | none => rfl
  | some n => exact absurd (directory_of_append names there more) h

theorem clear_grows (t : Tree) (top : Location) : (t.clear top).Grows t := by
  intro l n h
  rw [at?_clear] at h
  split at h
  · cases h
  · exact ⟨n, h, .inl rfl⟩

/-! ## Steps of a walk -/

/-- A segment that can be the name of something. -/
def Plain (s : String) : Prop := ¬ Idle s ∧ s ≠ ".." ∧ s.utf8ByteSize ≤ nameLimit

/-- A walk from a directory along segments, through at most so many links, ends at a place where
    something is. -/
inductive Leads (t : Tree) : Nat → Location → List String → Location → Prop
  | stop {hops : Nat} {dir : Location} : t.at? dir = some .directory → Leads t hops dir [] dir
  | stay {hops : Nat} {dir l : Location} {s : String} {rest : List String} :
      Idle s → Leads t hops dir rest l → Leads t hops dir (s :: rest) l
  | up {hops : Nat} {dir l : Location} {rest : List String} :
      Leads t hops dir.dropLast rest l → Leads t hops dir (".." :: rest) l
  | down {hops : Nat} {dir l : Location} {s : String} {rest : List String} :
      Plain s → t.at? (dir ++ [s]) = some .directory → Leads t hops (dir ++ [s]) rest l → Leads t hops dir (s :: rest) l
  | file {hops : Nat} {dir : Location} {s content : String} :
      Plain s → t.at? (dir ++ [s]) = some (.file content) → Leads t hops dir [s] (dir ++ [s])
  | follow {hops : Nat} {dir l : Location} {s : String} {target : Path} {rest : List String} :
      Plain s → t.at? (dir ++ [s]) = some (.link target) →
      Leads t hops (if target.isAbsolute then [] else dir) (target.segments ++ rest) l →
      Leads t (hops + 1) dir (s :: rest) l

section Walk

variable {follow : Location → List String → Except DiskFault Place}

theorem walkWith_idle (idle : Idle s) : t.walkWith follow dir (s :: rest) = t.walkWith follow dir rest := by
  rw [walkWith, if_pos idle]

theorem walkWith_up : t.walkWith follow dir (".." :: rest) = t.walkWith follow dir.dropLast rest := by
  rw [walkWith, if_neg (by decide), if_pos rfl]

theorem walkWith_plain (plain : Plain s) : t.walkWith follow dir (s :: rest) =
    match t.at? (dir ++ [s]) with
    | none => if rest.isEmpty ∧ t.at? dir = some .directory then .ok (.vacant (dir ++ [s])) else .error .notFound
    | some .directory => t.walkWith follow (dir ++ [s]) rest
    | some (.file _) => if rest.isEmpty then .ok (.found (dir ++ [s])) else .error .notDirectory
    | some (.link target) => follow (if target.isAbsolute then [] else dir) (target.segments ++ rest) := by
  rw [walkWith]
  exact (if_neg plain.1).trans ((if_neg plain.2.1).trans (if_neg (Nat.not_lt.2 plain.2.2)))

/-- A segment that a walk gets past is idle, leaves the directory, or is plain. -/
theorem segment_cases {place : Place} (h : t.walkWith follow dir (s :: rest) = .ok place) :
    Idle s ∨ s = ".." ∨ Plain s := by
  by_cases idle : Idle s
  · exact .inl idle
  · by_cases parent : s = ".."
    · exact .inr (.inl parent)
    · refine .inr (.inr ⟨idle, parent, ?_⟩)
      by_contra long
      rw [walkWith, if_neg idle, if_neg parent, if_pos (Nat.not_le.1 long)] at h
      cases h

/-- A walk goes by the rules when it does so from each link on. -/
theorem leads_of_walkWith (fromLink : ∀ (dir : Location) (s : String) (rest : List String) (target : Path), Plain s →
      t.at? (dir ++ [s]) = some (.link target) →
      follow (if target.isAbsolute then [] else dir) (target.segments ++ rest) = .ok (.found l) →
      t.Leads hops dir (s :: rest) l)
    (h : t.walkWith follow dir segs = .ok (.found l)) : t.Leads hops dir segs l := by
  induction segs generalizing dir with
  | nil =>
    rw [walkWith] at h
    split at h
    · cases h
      exact .stop ‹_›
    · cases h
  | cons s rest ih =>
    rcases segment_cases h with idle | rfl | plain
    · rw [walkWith_idle idle] at h
      exact .stay idle (ih h)
    · rw [walkWith_up] at h
      exact .up (ih h)
    · rw [walkWith_plain plain] at h
      split at h
      · split at h <;> cases h
      · exact .down plain ‹_› (ih h)
      · split at h
        · next last =>
          obtain rfl := List.isEmpty_iff.1 last
          cases h
          exact .file plain ‹_›
        · cases h
      · exact fromLink dir s rest _ plain ‹_› h

end Walk

theorem leads_of_walk (h : t.walk hops dir segs = .ok (.found l)) : t.Leads hops dir segs l := by
  induction hops generalizing dir segs with
  | zero =>
    refine leads_of_walkWith (fun _ _ _ _ _ _ taken => ?_) h
    cases taken
  | succ hops ih => exact leads_of_walkWith (fun _ _ _ _ plain link taken => .follow plain link (ih taken)) h

/-- Walks differ in what they do with a link only. -/
theorem walk_eq_walkWith (t : Tree) (hops : Nat) : ∃ follow, t.walk hops = t.walkWith follow := by
  cases hops with
  | zero => exact ⟨_, rfl⟩
  | succ hops => exact ⟨_, rfl⟩

theorem walk_of_leads (h : t.Leads hops dir segs l) : t.walk hops dir segs = .ok (.found l) := by
  induction h with
  | @stop hops dir there =>
    obtain ⟨follow, same⟩ := t.walk_eq_walkWith hops
    rw [same, walkWith, if_pos there]
  | @stay hops dir l s rest idle _ ih =>
    obtain ⟨follow, same⟩ := t.walk_eq_walkWith hops
    rw [same] at ih ⊢
    rw [walkWith_idle idle, ih]
  | @up hops dir l rest _ ih =>
    obtain ⟨follow, same⟩ := t.walk_eq_walkWith hops
    rw [same] at ih ⊢
    rw [walkWith_up, ih]
  | @down hops dir l s rest plain there _ ih =>
    obtain ⟨follow, same⟩ := t.walk_eq_walkWith hops
    rw [same] at ih ⊢
    rw [walkWith_plain plain, there, ih]
  | @file hops dir s content plain there =>
    obtain ⟨follow, same⟩ := t.walk_eq_walkWith hops
    rw [same, walkWith_plain plain, there]
    rfl
  | follow plain there _ ih =>
    rw [walk, walkWith_plain plain, there]
    exact ih

theorem walk_eq_found : t.walk hops dir segs = .ok (.found l) ↔ t.Leads hops dir segs l := ⟨leads_of_walk, walk_of_leads⟩

theorem leads_idle (idle : Idle s) : t.Leads hops dir (s :: rest) l ↔ t.Leads hops dir rest l := by
  obtain ⟨follow, same⟩ := t.walk_eq_walkWith hops
  rw [← walk_eq_found, ← walk_eq_found, same, walkWith_idle idle]

theorem leads_up : t.Leads hops dir (".." :: rest) l ↔ t.Leads hops dir.dropLast rest l := by
  obtain ⟨follow, same⟩ := t.walk_eq_walkWith hops
  rw [← walk_eq_found, ← walk_eq_found, same, walkWith_up]

theorem leads_down (plain : Plain s) (there : t.at? (dir ++ [s]) = some .directory) :
    t.Leads hops dir (s :: rest) l ↔ t.Leads hops (dir ++ [s]) rest l := by
  obtain ⟨follow, same⟩ := t.walk_eq_walkWith hops
  rw [← walk_eq_found, ← walk_eq_found, same, walkWith_plain plain, there]

theorem leads_follow {target : Path} (plain : Plain s) (there : t.at? (dir ++ [s]) = some (.link target)) :
    t.Leads (hops + 1) dir (s :: rest) l ↔
      t.Leads hops (if target.isAbsolute then [] else dir) (target.segments ++ rest) l := by
  rw [← walk_eq_found, ← walk_eq_found, walk, walkWith_plain plain, there]

/-! ## What a walk finds -/

def HasFile (t : Tree) (l : Location) : Prop := t.at? l = some .directory ∨ ∃ content, t.at? l = some (.file content)

namespace Leads

/-- What a walk finds is a directory or a file. -/
theorem hasFile (h : t.Leads hops dir segs l) : t.HasFile l := by
  induction h with
  | stop there => exact .inl there
  | stay _ _ ih => exact ih
  | up _ ih => exact ih
  | down _ _ _ ih => exact ih
  | file _ there => exact .inr ⟨_, there⟩
  | follow _ _ _ ih => exact ih

/-- What was found is found again after the tree grew. -/
theorem grow (h : t.Leads hops dir segs l) (grows : t.Grows t') : t'.Leads hops dir segs l := by
  induction h with
  | stop there => exact .stop (grows.directory there)
  | stay idle _ ih => exact .stay idle ih
  | up _ ih => exact .up ih
  | down plain there _ ih => exact .down plain (grows.directory there) ih
  | file plain there =>
    obtain ⟨new, there'⟩ := grows.file there
    exact .file plain there'
  | follow plain there _ ih => exact .follow plain (grows.link there) ih

/-- Behind a directory that some segments lead to, a walk goes on as one that begins there. -/
theorem append (h : t.Leads hops dir xs m) (directory : t.at? m = some .directory) :
    ∃ left, ∀ ys l, t.Leads hops dir (xs ++ ys) l ↔ t.Leads left m ys l := by
  induction h with
  | @stop hops dir there => exact ⟨hops, fun ys l => Iff.rfl⟩
  | stay idle _ ih =>
    obtain ⟨left, onwards⟩ := ih directory
    exact ⟨left, fun ys l => (leads_idle idle).trans (onwards ys l)⟩
  | up _ ih =>
    obtain ⟨left, onwards⟩ := ih directory
    exact ⟨left, fun ys l => leads_up.trans (onwards ys l)⟩
  | down plain there _ ih =>
    obtain ⟨left, onwards⟩ := ih directory
    exact ⟨left, fun ys l => (leads_down plain there).trans (onwards ys l)⟩
  | file plain there =>
    rw [there] at directory
    cases directory
  | follow plain there _ ih =>
    obtain ⟨left, onwards⟩ := ih directory
    refine ⟨left, fun ys l => (leads_follow plain there).trans ?_⟩
    have further := onwards ys l
    rwa [List.append_assoc] at further

/-- A name behind a directory leads to what stands there under it. -/
theorem concat (h : t.Leads hops dir xs m) (directory : t.at? m = some .directory) (plain : Plain s)
    (there : t.HasFile (m ++ [s])) : t.Leads hops dir (xs ++ [s]) (m ++ [s]) := by
  obtain ⟨left, onwards⟩ := h.append directory
  rw [onwards]
  rcases there with there | ⟨content, there⟩
  · exact .down plain there (.stop there)
  · exact .file plain there

/-- Idle segments do not change where a walk leads. -/
theorem idles (idles : ∀ x ∈ xs, Idle x) : t.Leads hops dir (xs ++ rest) l ↔ t.Leads hops dir rest l := by
  induction xs with
  | nil => exact Iff.rfl
  | cons x xs ih =>
    rw [List.cons_append, leads_idle (idles x List.mem_cons_self)]
    exact ih fun y member => idles y (List.mem_cons_of_mem _ member)

/-- Segments that stay where they are can be put in and left out on the way to a directory. -/
theorem congr (h : t.Leads hops dir xs l) (directory : t.at? l = some .directory) (same : moves xs = moves ys) :
    t.Leads hops dir ys l := by
  induction h generalizing ys with
  | stop there =>
    rw [← List.append_nil ys, idles (Path.idle_of_moves_eq_nil same.symm)]
    exact .stop there
  | stay idle _ ih =>
    rw [Path.moves_idle idle] at same
    exact ih directory same
  | up _ ih =>
    rw [Path.moves_cons (by decide)] at same
    obtain ⟨skipped, behind, all, rfl, same'⟩ := Path.of_moves_eq_cons same.symm
    rw [idles all]
    exact .up (ih directory same'.symm)
  | down plain there _ ih =>
    rw [Path.moves_cons plain.1] at same
    obtain ⟨skipped, behind, all, rfl, same'⟩ := Path.of_moves_eq_cons same.symm
    rw [idles all]
    exact .down plain there (ih directory same'.symm)
  | file plain there =>
    rw [there] at directory
    cases directory
  | follow plain there _ ih =>
    rw [Path.moves_cons plain.1] at same
    obtain ⟨skipped, behind, all, rfl, same'⟩ := Path.of_moves_eq_cons same.symm
    rw [idles all]
    refine .follow plain there (ih directory ?_)
    rw [Path.moves_append, Path.moves_append, same']

end Leads

/-! ## Vacant places -/

/-- A place with nothing in it, which segments lead to as soon as a directory or a file is there. -/
structure Awaits (t : Tree) (hops : Nat) (dir : Location) (segs : List String) (l : Location) : Prop where
  inner : l ≠ []
  parent : t.at? l.dropLast = some .directory
  free : t.at? l = none
  reach : ∀ t', t.Grows t' → t'.HasFile l → t'.Leads hops dir segs l

theorem awaits_of_walkWith {follow : Location → List String → Except DiskFault Place}
    (fromLink : ∀ (dir : Location) (s : String) (rest : List String) (target : Path), Plain s →
      t.at? (dir ++ [s]) = some (.link target) →
      follow (if target.isAbsolute then [] else dir) (target.segments ++ rest) = .ok (.vacant l) →
      t.Awaits hops dir (s :: rest) l)
    (h : t.walkWith follow dir segs = .ok (.vacant l)) : t.Awaits hops dir segs l := by
  -- the last step is the one that finds nothing; all before it can be taken in a larger tree
  induction segs generalizing dir with
  | nil =>
    rw [walkWith] at h
    split at h <;> cases h
  | cons s rest ih =>
    rcases segment_cases h with idle | rfl | plain
    · rw [walkWith_idle idle] at h
      have later := ih h
      exact { later with reach := fun t' grows filled => .stay idle (later.reach t' grows filled) }
    · rw [walkWith_up] at h
      have later := ih h
      exact { later with reach := fun t' grows filled => .up (later.reach t' grows filled) }
    · rw [walkWith_plain plain] at h
      split at h
      · next free =>
        split at h
        · next ends =>
          obtain ⟨last, parent⟩ := ends
          obtain rfl := List.isEmpty_iff.1 last
          cases h
          refine ⟨by simp, by rwa [List.dropLast_concat], free, fun t' grows filled => ?_⟩
          rcases filled with there | ⟨content, there⟩
          · exact .down plain there (.stop there)
          · exact .file plain there
        · cases h
      · next there =>
        have later := ih h
        exact { later with
          reach := fun t' grows filled => .down plain (grows.directory there) (later.reach t' grows filled) }
      · split at h <;> cases h
      · exact fromLink dir s rest _ plain ‹_› h

/-- Where a walk ends at a vacant place, it finds what is put there. -/
theorem awaits_of_walk (h : t.walk hops dir segs = .ok (.vacant l)) : t.Awaits hops dir segs l := by
  induction hops generalizing dir segs with
  | zero =>
    refine awaits_of_walkWith (fun _ _ _ _ _ _ taken => ?_) h
    cases taken
  | succ hops ih =>
    refine awaits_of_walkWith (fun dir s rest target plain link taken => ?_) h
    have later := ih taken
    exact { later with
      reach := fun t' grows filled => .follow plain (grows.link link) (later.reach t' grows filled) }

end Tree

/-! ## Paths -/

namespace Disk

def place? (d : Disk) (p : Path) : Option Location :=
  match d.locate p with
  | .ok (.found l) => some l
  | _ => none

variable {d d' : Disk} {p q : Path}

theorem locate_of_place? (h : d.place? p = some l) : d.locate p = .ok (.found l) := by
  unfold place? at h
  split at h
  · cases h
    assumption
  · cases h

/-- What a path leads to is what its segments lead to, if it can be followed at all. -/
theorem place?_eq_some : d.place? p = some l ↔ pathFault? p = none ∧ d.tree.Leads hopLimit (d.start p) p.segments l := by
  rw [← Tree.walk_eq_found]
  constructor
  · intro h
    have located := locate_of_place? h
    unfold locate at located
    split at located
    · cases located
    · exact ⟨‹_›, located⟩
  · rintro ⟨usable, found⟩
    unfold place? locate
    rw [usable, found]

theorem start_congr (same : d'.here = d.here) (p : Path) : d'.start p = d.start p := by
  unfold start
  rw [same]

/-- A path leads to the same place after the tree grew. -/
theorem place?_grow (h : d.place? p = some l) (same : d'.here = d.here) (grows : d.tree.Grows d'.tree) :
    d'.place? p = some l := by
  obtain ⟨usable, leads⟩ := place?_eq_some.1 h
  refine place?_eq_some.2 ⟨usable, ?_⟩
  rw [start_congr same]
  exact leads.grow grows

end Disk

end SandboxFetch
