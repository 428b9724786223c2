/-
  SandboxFetch.Disk.Basic — what a program sees of a tree through paths.

  A path is followed name by name from the root or, when it is relative, from the working directory
  (`walk`). `.` and empty segments stay in a directory, `..` leaves it; a symbolic link on the way
  is followed, and at most `hopLimit` of them. The walk ends at a directory or a file that is there,
  or at a place where nothing is yet in a directory that is there (`Place`).

  Directories are made from the outermost missing one inwards; when that fails, those made before
  stay (`makeDirectories`). A file is written through the links at the end of its path, also
  through one whose target is missing (`write`). Of a fault, only `notFound` is ever told from the
  others.
-/

import SandboxFetch.Disk.Tree

namespace SandboxFetch

inductive DiskFault where
  | notFound
  | notDirectory
  | isDirectory
  | occupied
  | notEmpty
  | tooManyLinks
  | nameTooLong
  | badPath
  deriving DecidableEq, Repr

def DiskFault.message : DiskFault → String
  | .notFound => "no such file or directory"
  | .notDirectory => "not a directory"
  | .isDirectory => "is a directory"
  | .occupied => "file exists"
  | .notEmpty => "directory not empty"
  | .tooManyLinks => "too many levels of symbolic links"
  | .nameTooLong => "name too long"
  | .badPath => "path contains a zero character"

inductive Place where
  /-- There is a directory or a file. -/
  | found (l : Location)
  /-- There is nothing, but the parent is a directory. -/
  | vacant (l : Location)
  deriving DecidableEq, Repr

/-- How many symbolic links a walk follows. -/
def hopLimit : Nat := 40

/-- How many bytes a name has at most. -/
def nameLimit : Nat := 255

/-- How many bytes a path has at most. -/
def pathLimit : Nat := 4095

namespace Tree

/-- Walks from a directory along the segments of a path. A link on the way is taken by `follow`,
    which gets the directory to go on from and the segments to go along. -/
def walkWith (t : Tree) (follow : Location → List String → Except DiskFault Place) :
    Location → List String → Except DiskFault Place
  | dir, [] => if t.at? dir = some .directory then .ok (.found dir) else .error .notFound
  | dir, s :: rest =>
    if s = "" ∨ s = "." then walkWith t follow dir rest
    else if s = ".." then walkWith t follow dir.dropLast rest
    else if nameLimit < s.utf8ByteSize then .error .nameTooLong
    else
      let next := dir ++ [s]
      match t.at? next with
      | none => if rest.isEmpty ∧ t.at? dir = some .directory then .ok (.vacant next) else .error .notFound
      | some .directory => walkWith t follow next rest
      | some (.file _) => if rest.isEmpty then .ok (.found next) else .error .notDirectory
      | some (.link target) => follow (if target.isAbsolute then [] else dir) (target.segments ++ rest)

def walk (t : Tree) : Nat → Location → List String → Except DiskFault Place
  | 0 => t.walkWith fun _ _ => .error .tooManyLinks
  | hops + 1 => t.walkWith (t.walk hops)

end Tree

/-- A tree and the directory that relative paths are read from. -/
structure Disk where
  tree : Tree := default
  here : Location := []
  deriving Inhabited

namespace Disk

def start (d : Disk) (p : Path) : Location := if p.isAbsolute then [] else d.here

/-- What keeps a path from being followed at all. -/
def pathFault? (p : Path) : Option DiskFault :=
  if p.isEmpty then some .notFound
  else if p.text.toList.contains '\x00' then some .badPath
  else if pathLimit < p.text.utf8ByteSize then some .nameTooLong
  else none

/-- Where a path leads, its last name included. -/
def locate (d : Disk) (p : Path) : Except DiskFault Place :=
  match pathFault? p with
  | some fault => .error fault
  | none => d.tree.walk hopLimit (d.start p) p.segments

/-! ## Looking -/

inductive Status where
  | absent
  | directory
  | file
  deriving DecidableEq, Repr

def status (d : Disk) (p : Path) : Except DiskFault Status :=
  match d.locate p with
  | .ok (.found l) => .ok (if d.tree.at? l = some .directory then .directory else .file)
  | .ok (.vacant _) | .error .notFound => .ok .absent
  | .error fault => .error fault

def isDirectory (d : Disk) (p : Path) : Bool := d.status p matches .ok .directory

def read (d : Disk) (p : Path) : Except DiskFault String :=
  match d.locate p with
  | .ok (.found l) =>
    match d.tree.at? l with
    | some (.file content) => .ok content
    | _ => .error .isDirectory
  | .ok (.vacant _) => .error .notFound
  | .error fault => .error fault

/-! ## Changing -/

def put (d : Disk) (l : Location) (n : Node) : Disk := { d with tree := d.tree.put l n }

/-- Writes a file, over the one that is there. -/
def write (d : Disk) (p : Path) (content : String) : Except DiskFault Disk :=
  match d.locate p with
  | .ok (.found l) => if d.tree.at? l = some .directory then .error .isDirectory else .ok (d.put l (.file content))
  | .ok (.vacant l) => .ok (d.put l (.file content))
  | .error fault => .error fault

/-- The place of a new node, whose name is the last segment of its path. A link there is not
    followed. -/
def vacancy (d : Disk) (p : Path) : Except DiskFault Location :=
  let segments := p.segments.filter (· ≠ "")
  match pathFault? p with
  | some fault => .error fault
  | none =>
    match segments.getLast? with
    | none => .error .occupied
    | some name =>
      match d.tree.walk hopLimit (d.start p) segments.dropLast with
      | .error fault => .error fault
      | .ok (.vacant _) => .error .notFound
      | .ok (.found dir) =>
        if d.tree.at? dir ≠ some .directory then .error .notDirectory
        else if name = "." ∨ name = ".." then .error .occupied
        else if nameLimit < name.utf8ByteSize then .error .nameTooLong
        else if (d.tree.at? (dir ++ [name])).isSome then .error .occupied
        else .ok (dir ++ [name])

def makeDirectory (d : Disk) (p : Path) : Except DiskFault Disk := (d.vacancy p).map (d.put · .directory)

def makeLink (d : Disk) (p target : Path) : Except DiskFault Disk := (d.vacancy p).map (d.put · (.link target))

/-- The disk after an attempt, which stays as it was when the attempt failed. -/
def attempt (d : Disk) (result : Except DiskFault Disk) : Except DiskFault Unit × Disk :=
  match result with
  | .ok changed => (.ok (), changed)
  | .error fault => (.error fault, d)

/-- Makes the first of some directories, each of which stands in the next one, and before it those
    that it needs. A directory that is there already is left as it is. -/
def makeChain : List Path → Disk → Except DiskFault Unit × Disk
  | [], d => (.ok (), d)
  | p :: outer, d =>
    let settle (d : Disk) (fault : DiskFault) : Except DiskFault Unit × Disk :=
      if d.isDirectory p then (.ok (), d) else (.error fault, d)
    match d.makeDirectory p with
    | .ok made => (.ok (), made)
    | .error .notFound =>
      match makeChain outer d with
      | (.error fault, d) => (.error fault, d)
      | (.ok (), d) =>
        match d.makeDirectory p with
        | .ok made => (.ok (), made)
        | .error fault => settle d fault
    | .error fault => settle d fault

/-- The directories around a path that has some steps, innermost first; the root is not one of
    them. -/
def enclosing (steps : List Path.Step) : List Path :=
  (List.range steps.length).reverse.filterMap fun n =>
    match steps.take n with
    | [] | [.root] => none
    | outer => some (Path.ofSteps outer)

def makeDirectories (d : Disk) (p : Path) : Except DiskFault Unit × Disk :=
  if p.parent?.isNone then (.ok (), d) else makeChain (p :: enclosing p.steps) d

/-- Writes a file in a directory that is made when it is missing. -/
def writeInto (d : Disk) (p : Path) (content : String) : Except DiskFault Unit × Disk :=
  let (made, d) : Except DiskFault Unit × Disk :=
    match p.parent? with
    | none => (.ok (), d)
    | some dir => d.makeDirectories dir
  match made with
  | .error fault => (.error fault, d)
  | .ok () => d.attempt (d.write p content)

/-- Writes files in order, up to the first that cannot be written. -/
def writeAll : List (Path × String) → Disk → Except DiskFault Unit × Disk
  | [], d => (.ok (), d)
  | (p, content) :: rest, d =>
    match d.writeInto p content with
    | (.ok (), d) => writeAll rest d
    | failed => failed

def clear (d : Disk) (p : Path) : Disk :=
  match d.locate p with
  | .ok (.found l) => if d.tree.at? l = some .directory then { d with tree := d.tree.clear l } else d
  | _ => d

end Disk

end SandboxFetch
