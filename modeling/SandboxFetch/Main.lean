/-
  SandboxFetch.Main — the program.

  A command works on an image of the disk. The program reads into the image what the command can
  look at: the files it names, and the destination of a job with all that is below it. It runs the
  command, and does to the disk what was done to the image.
-/

import SandboxFetch.CommandLine.Running
import SandboxFetch.Disk.Difference
import SandboxFetch.Timestamp.Unix
import Std.Time.DateTime.Timestamp

namespace SandboxFetch.CommandLine

/-! ## The image -/

/-- The content of a file; what is no text is as good as empty. -/
def contentOf (path : String) : IO String := do
  try IO.FS.readFile path catch _ => return ""

/-- Adds to an image what is below a directory entry. -/
partial def addEntry (image : Disk) (entry : IO.FS.DirEntry) : IO Disk := do
  let path := entry.path
  let place : Path := ⟨path.toString⟩
  match (← path.symlinkMetadata).type with
  | .dir =>
    let mut image := (image.makeDirectories place).2
    for inner in ← path.readDir do
      image ← addEntry image inner
    return image
  | .symlink => return (image.attempt (image.makeLink place ⟨(← IO.FS.realPath path).toString⟩)).2
  | .file | .other => return (image.attempt (image.write place (← contentOf place.text))).2

/-- Adds to an image what a path leads to, and on request what is below it. -/
def addPath (image : Disk) (p : Path) (below : Bool) : IO Disk := do
  let here ← IO.currentDir
  let mut image := image
  for outer in (p :: Disk.enclosing p.steps).reverse do
    let path := here / outer.text
    if ← path.isDir then
      image := (image.makeDirectories outer).2
    else if ← path.pathExists then
      image := (image.attempt (image.write outer (← contentOf path.toString))).2
  let path := here / p.text
  if below && (← path.isDir) then
    for entry in ← path.readDir do
      image ← addEntry image entry
  return image

/-- The paths that a command reads or writes, but for a destination. -/
def Command.paths : Command → List Path
  | .plan job _ => [job.configuration, job.repository]
  | .fetch job changeLog properties => [job.configuration, job.repository] ++ changeLog.toList ++ properties.toList
  | .showChangeLog file _ => [file]

def Command.destination? (image : Disk) : Command → Option Path
  | .fetch job _ _ => do
    let content ← (image.read job.configuration).toOption
    let c ← (Configuration.ofText content).toOption
    (resolveDestination c.destination job.workingDir .unix).toOption
  | _ => none

def imageFor (command : Command) : IO Disk := do
  let here ← IO.currentDir
  let home : Disk := (({} : Disk).makeDirectories ⟨here.toString⟩).2
  let mut image : Disk := { home with here := (Path.segments ⟨here.toString⟩).filter (· ≠ "") }
  for p in command.paths do
    image ← addPath image p false
  match command.destination? image with
  | some root => addPath image root true
  | none => return image

/-! ## The disk -/

def locationText (l : Location) : String := "/" ++ "/".intercalate l

/-- Does to the disk what was done to its image. -/
def carryOver (old new : Tree) : IO Unit := do
  for (l, node) in old.removals new do
    match node with
    | .directory => IO.FS.removeDir (locationText l)
    | .file _ | .link _ => IO.FS.removeFile (locationText l)
  for (l, node) in old.additions new do
    match node with
    | .directory => IO.FS.createDirAll (locationText l)
    | .file content => IO.FS.writeFile (locationText l) content
    | .link _ => pure ()

/-! ## The program -/

def currentTime : IO Timestamp := do
  let now ← Std.Time.Timestamp.now
  match Timestamp.ofNanoseconds? now.toNanosecondsSinceUnixEpoch.val with
  | some t => return t
  | none => throw (IO.userError "the clock shows no date")

/-- A supply of ids that no other run has. -/
def randomIds : IO IdSupply := do
  let bytes ← IO.getRandomBytes 9
  return .ofSeed (bytes.toList.foldl (fun n b => 256 * n + b.toNat) 0)

def environment : IO (List (String × String)) := do
  let mut found := []
  for name in ["config", "repository"].filterMap variableOf do
    if let some value ← IO.getEnv name then
      found := found ++ [(name, value)]
  return found

end SandboxFetch.CommandLine

open SandboxFetch SandboxFetch.CommandLine in
def main (args : List String) : IO UInt32 := do
  let environment ← environment
  let image ← match Invocation.ofArguments environment args with
    | .ok invocation => imageFor invocation.command
    | .error _ => pure {}
  let (result, after) := runProgram environment args { disk := image, now := ← currentTime, ids := ← randomIds }
  carryOver image.tree after.disk.tree
  IO.eprint result.messages
  IO.print result.output
  return result.code.toUInt32
