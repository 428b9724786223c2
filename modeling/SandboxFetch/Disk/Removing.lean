/-
  SandboxFetch.Disk.Removing — directories that are emptied name by name.

  The names of a directory are read one at a time, and each is removed before the next one is read. A
  directory goes after all that is in it, and a link goes itself, whatever it points to
  (`Tree.removeAll`). The machine can refuse to read a name or to remove what is at a place
  (`Hindrances`); then everything stops there, and what was removed before stays away
  (`Tree.eachName`).
-/

import SandboxFetch.Disk.Basic

namespace SandboxFetch

/-- What the machine refuses while things are removed. -/
structure Hindrances where
  /-- To read the next name of a directory, after so many others. -/
  reading : Location → Nat → Option DiskFault := fun _ _ => none
  removing : Location → Option DiskFault := fun _ => none

theorem nodeAt?_filter_ne {entries : List (Location × Node)} {l m : Location} (other : m ≠ l) :
    nodeAt? (entries.filter fun e => e.1 != l) m = nodeAt? entries m := by
  unfold nodeAt?
  rw [lookup_filter_key (fun k => k != l)]
  simp [other]

namespace Tree

def names (t : Tree) (dir : Location) : List String :=
  t.entries.filterMap fun e => if e.1.dropLast = dir then e.1.getLast? else none

theorem mem_names_of_entry {t : Tree} {e : Location × Node} (member : e ∈ t.entries) :
    ∃ name ∈ t.names e.1.dropLast, e.1.dropLast ++ [name] = e.1 := by
  have inner := (t.grounded e member).1
  refine ⟨e.1.getLast inner, List.mem_filterMap.2 ⟨e, member, ?_⟩, List.dropLast_concat_getLast inner⟩
  rw [if_pos rfl, List.getLast?_eq_some_getLast inner]

/-- The tree without what is at a place, if nothing is in it; otherwise the tree stays as it is. -/
def remove (t : Tree) (l : Location) : Tree :=
  if h : t.names l = [] then
    { entries := t.entries.filter fun e => e.1 != l
      grounded := by
        intro e he
        obtain ⟨he, -⟩ := List.mem_filter.1 he
        obtain ⟨hne, hp⟩ := t.grounded e he
        refine ⟨hne, ?_⟩
        rw [nodeAt?_filter_ne]
        · exact hp
        · intro parent
          obtain ⟨name, member, -⟩ := mem_names_of_entry he
          rw [parent, h] at member
          cases member
      distinct := t.distinct.filter _ }
  else t

/-- How long the longest place of a tree is. -/
def depth (t : Tree) : Nat := (t.entries.map fun e => e.1.length).foldr max 0

variable {ε : Type}

/-- Does something for each of some names, up to the first failure; before each of them, and once more
    at the end, it may turn out that there is no reading on. -/
def eachName (fault? : Nat → Option ε) (act : String → Tree → Except ε Unit × Tree) :
    Nat → List String → Tree → Except ε Unit × Tree
  | n, names, t =>
    match fault? n, names with
    | some fault, _ => (.error fault, t)
    | none, [] => (.ok (), t)
    | none, name :: rest =>
      match act name t with
      | (.ok (), t) => eachName fault? act (n + 1) rest t
      | failed => failed

/-- Removes what is at a place, which a directory has to be empty for. -/
def removeOne (h : Hindrances) (l : Location) (t : Tree) : Except DiskFault Unit × Tree :=
  match h.removing l with
  | some fault => (.error fault, t)
  | none => if t.names l = [] then (.ok (), t.remove l) else (.error .notEmpty, t)

/-- Removes what is at a place, and before it all that is in it so many levels down. -/
def removeAll (h : Hindrances) : Nat → Location → Tree → Except DiskFault Unit × Tree
  | 0, l, t => removeOne h l t
  | levels + 1, l, t =>
    if t.at? l = some .directory then
      match eachName (h.reading l) (fun name => removeAll h levels (l ++ [name])) 0 (t.names l) t with
      | (.ok (), t) => removeOne h l t
      | failed => failed
    else removeOne h l t

/-- Removes what has a name in a directory. A failure is told with the path of what has it. -/
def removeNamed (h : Hindrances) (levels : Nat) (p : Path) (dir : Location) (name : String) (t : Tree) :
    Except (Path × DiskFault) Unit × Tree :=
  match removeAll h levels (dir ++ [name]) t with
  | (.ok (), t) => (.ok (), t)
  | (.error fault, t) => (.error (p.push name, fault), t)

def removeContents (h : Hindrances) (p : Path) (dir : Location) (t : Tree) : Except (Path × DiskFault) Unit × Tree :=
  eachName (fun n => (h.reading dir n).map (p, ·)) (removeNamed h t.depth p dir) 0 (t.names dir) t

end Tree

def Disk.removeContents (d : Disk) (h : Hindrances) (p : Path) : Except (Path × DiskFault) Unit × Disk :=
  match d.locate p with
  | .ok (.found l) =>
    if d.tree.at? l = some .directory then
      let (result, tree) := d.tree.removeContents h p l
      (result, { d with tree })
    else (.error (p, .notDirectory), d)
  | .ok (.vacant _) => (.error (p, .notFound), d)
  | .error fault => (.error (p, fault), d)

end SandboxFetch
