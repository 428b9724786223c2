/-
  SandboxFetch.Proofs.Disk.Stopping — walks that come to nothing, step by step.

  A walk that finds no directory and no file stops for a fault, and `Stops` has one rule for each way in
  which it can (`faultOf_walk`): a name is missing, too long, or that of a file with more behind it, or
  there is a link too many. A path leads somewhere or is refused (`place_or_refused`), and what a look at
  it tells is one of four things (`status_of_place?`, `status_of_refuses`): only what is refused because a
  name is missing counts as absent.
-/

import SandboxFetch.Proofs.Disk.Walking

namespace SandboxFetch

open SandboxFetch.Path (Idle)

variable {t : Tree} {l dir : Location} {hops : Nat} {s : String} {segs rest : List String} {fault : DiskFault}

/-! ## Walks -/

namespace Tree

def faultOf : Except DiskFault Place → Option DiskFault
  | .ok (.found _) => none
  | .ok (.vacant _) => some .notFound
  | .error fault => some fault

/-- A walk from a directory along segments, through at most so many links, stops for a fault. -/
inductive Stops (t : Tree) : Nat → Location → List String → DiskFault → Prop
  /-- The directory that the walk was to end in is not there. -/
  | astray {hops : Nat} {dir : Location} : t.at? dir ≠ some .directory → Stops t hops dir [] .notFound
  | missing {hops : Nat} {dir : Location} {s : String} {rest : List String} :
      Plain s → t.at? (dir ++ [s]) = none → Stops t hops dir (s :: rest) .notFound
  | long {hops : Nat} {dir : Location} {s : String} {rest : List String} :
      ¬ Idle s → s ≠ ".." → nameLimit < s.utf8ByteSize → Stops t hops dir (s :: rest) .nameTooLong
  /-- There is a file where a directory is needed. -/
  | barred {hops : Nat} {dir : Location} {s content : String} {rest : List String} :
      Plain s → t.at? (dir ++ [s]) = some (.file content) → rest ≠ [] → Stops t hops dir (s :: rest) .notDirectory
  | entangled {dir : Location} {s : String} {target : Path} {rest : List String} :
      Plain s → t.at? (dir ++ [s]) = some (.link target) → Stops t 0 dir (s :: rest) .tooManyLinks
  | stay {hops : Nat} {dir : Location} {s : String} {rest : List String} {fault : DiskFault} :
      Idle s → Stops t hops dir rest fault → Stops t hops dir (s :: rest) fault
  | up {hops : Nat} {dir : Location} {rest : List String} {fault : DiskFault} :
      Stops t hops dir.dropLast rest fault → Stops t hops dir (".." :: rest) fault
  | down {hops : Nat} {dir : Location} {s : String} {rest : List String} {fault : DiskFault} :
      Plain s → t.at? (dir ++ [s]) = some .directory → Stops t hops (dir ++ [s]) rest fault →
      Stops t hops dir (s :: rest) fault
  | follow {hops : Nat} {dir : Location} {s : String} {target : Path} {rest : List String} {fault : DiskFault} :
      Plain s → t.at? (dir ++ [s]) = some (.link target) →
      Stops t hops (if target.isAbsolute then [] else dir) (target.segments ++ rest) fault →
      Stops t (hops + 1) dir (s :: rest) fault

/-- A walk stops by the rules when it does so from each link on. -/
theorem stops_of_walkWith {follow : Location → List String → Except DiskFault Place}
    (fromLink : ∀ (dir : Location) (s : String) (rest : List String) (target : Path), Plain s →
      t.at? (dir ++ [s]) = some (.link target) →
      faultOf (follow (if target.isAbsolute then [] else dir) (target.segments ++ rest)) = some fault →
      t.Stops hops dir (s :: rest) fault)
    (h : faultOf (t.walkWith follow dir segs) = some fault) : t.Stops hops dir segs fault := by
  -- each branch of the walk has its rule
  induction segs generalizing dir with
  | nil =>
    rw [walkWith] at h
    split at h
    · cases h
    · next other =>
      cases h
      exact .astray other
  | cons s rest ih =>
    by_cases idle : Idle s
    · rw [walkWith_idle idle] at h
      exact .stay idle (ih h)
    · by_cases parent : s = ".."
      · subst parent
        rw [walkWith_up] at h
        exact .up (ih h)
      · by_cases long : nameLimit < s.utf8ByteSize
        · rw [walkWith, if_neg idle, if_neg parent, if_pos long] at h
          cases h
          exact .long idle parent long
        · have plain : Plain s := ⟨idle, parent, Nat.not_lt.1 long⟩
          rw [walkWith_plain plain] at h
          split at h
          · next free =>
            split at h
            all_goals
              cases h
              exact .missing plain free
          · exact .down plain ‹_› (ih h)
          · split at h
            · cases h
            · next more =>
              cases h
              exact .barred plain ‹_› fun last => more (List.isEmpty_iff.2 last)
          · exact fromLink dir s rest _ plain ‹_› h

theorem stops_of_walk (h : faultOf (t.walk hops dir segs) = some fault) : t.Stops hops dir segs fault := by
  induction hops generalizing dir segs with
  | zero =>
    refine stops_of_walkWith (fun _ _ _ _ plain link taken => ?_) h
    cases taken
    exact .entangled plain link
  | succ hops ih => exact stops_of_walkWith (fun _ _ _ _ plain link taken => .follow plain link (ih taken)) h

theorem walk_of_stops (h : t.Stops hops dir segs fault) : faultOf (t.walk hops dir segs) = some fault := by
  induction h with
  | @astray hops dir other =>
    obtain ⟨follow, same⟩ := t.walk_eq_walkWith hops
    rw [same, walkWith, if_neg other]
    rfl
  | @missing hops dir s rest plain free =>
    obtain ⟨follow, same⟩ := t.walk_eq_walkWith hops
    rw [same, walkWith_plain plain, free]
    dsimp only
    split <;> rfl
  | @long hops dir s rest busy other long =>
    obtain ⟨follow, same⟩ := t.walk_eq_walkWith hops
    rw [same, walkWith, if_neg busy, if_neg other, if_pos long]
    rfl
  | @barred hops dir s content rest plain there more =>
    obtain ⟨follow, same⟩ := t.walk_eq_walkWith hops
    rw [same, walkWith_plain plain, there]
    dsimp only
    rw [if_neg (by simpa using more)]
    rfl
  | entangled plain there =>
    rw [walk, walkWith_plain plain, there]
    rfl
  | @stay hops dir s rest fault idle _ ih =>
    obtain ⟨follow, same⟩ := t.walk_eq_walkWith hops
    rw [same] at ih ⊢
    rw [walkWith_idle idle, ih]
  | @up hops dir rest fault _ ih =>
    obtain ⟨follow, same⟩ := t.walk_eq_walkWith hops
    rw [same] at ih ⊢
    rw [walkWith_up, ih]
  | @down hops dir s rest fault plain there _ ih =>
    obtain ⟨follow, same⟩ := t.walk_eq_walkWith hops
    rw [same] at ih ⊢
    rw [walkWith_plain plain, there, ih]
  | follow plain there _ ih =>
    rw [walk, walkWith_plain plain, there]
    exact ih

theorem faultOf_walk : faultOf (t.walk hops dir segs) = some fault ↔ t.Stops hops dir segs fault :=
  ⟨stops_of_walk, walk_of_stops⟩

end Tree

/-! ## Paths -/

namespace Disk

variable {d : Disk} {p : Path}

inductive Refuses (d : Disk) (p : Path) (fault : DiskFault) : Prop
  | path : pathFault? p = some fault → Refuses d p fault
  | way : pathFault? p = none → d.tree.Stops hopLimit (d.start p) p.segments fault → Refuses d p fault

theorem faultOf_locate : Tree.faultOf (d.locate p) = some fault ↔ d.Refuses p fault := by
  unfold locate
  cases usable : pathFault? p with
  | some reason =>
    constructor
    · intro h
      cases h
      exact .path usable
    · rintro (h | ⟨other, -⟩)
      · rw [usable] at h
        exact h
      · rw [usable] at other
        cases other
  | none =>
    rw [Tree.faultOf_walk]
    constructor
    · exact .way usable
    · rintro (h | ⟨-, stops⟩)
      · rw [usable] at h
        cases h
      · exact stops

/-- A path leads somewhere, or something keeps it from doing so. -/
theorem place_or_refused (d : Disk) (p : Path) : (∃ l, d.place? p = some l) ∨ ∃ fault, d.Refuses p fault := by
  simp only [← faultOf_locate]
  unfold place?
  rcases d.locate p with fault | l | l
  · exact .inr ⟨fault, rfl⟩
  · exact .inl ⟨l, rfl⟩
  · exact .inr ⟨.notFound, rfl⟩

/-- What is refused leads nowhere. -/
theorem place?_of_refuses (refused : d.Refuses p fault) : d.place? p = none := by
  have stopped := faultOf_locate.2 refused
  unfold place?
  rcases located : d.locate p with reason | found | free
  · rfl
  · rw [located] at stopped
    cases stopped
  · rfl

theorem status_of_place? (leads : d.place? p = some l) :
    d.status p = .ok (if d.tree.at? l = some .directory then .directory else .file) := by
  unfold status
  rw [locate_of_place? leads]

/-- What is refused because a name is missing is absent, and nothing else is. -/
theorem status_of_refuses (refused : d.Refuses p fault) :
    d.status p = if fault = .notFound then .ok .absent else .error fault := by
  have stopped := faultOf_locate.2 refused
  unfold status
  rcases located : d.locate p with reason | found | free
  · rw [located] at stopped
    cases stopped
    cases fault <;> rfl
  · rw [located] at stopped
    cases stopped
  · rw [located] at stopped
    cases stopped
    rfl

end Disk

end SandboxFetch
