/-
  SandboxFetch.CommandLine.Running — the commands carried out.

  A command acts on a workstation: its disk, its clock and its supply of fresh ids. It prints its
  result on success only; its log goes to standard error as it is. A failure is told there after the
  log, by the step that failed, and the program ends with 1; a misuse of the arguments ends it
  with 2.
-/

import SandboxFetch.ChangeLog.File
import SandboxFetch.CommandLine.Rendering
import SandboxFetch.Configuration.Json

namespace SandboxFetch.CommandLine

def versionText : String := "buildfetch 0.3.1\n"

def helpText : String :=
  unlines [
    "Fetch source-control content into CI build sandboxes", "",
    "Usage: buildfetch [OPTIONS] <COMMAND>", "",
    "Commands:",
    "  plan       Resolve the load plan without touching the sandbox",
    "  fetch      Delete, accept and load into the sandbox",
    "  changelog  Change log operations",
    "  help       Print this message or the help of the given subcommand(s)", "",
    "Options:",
    "  -v, --verbose  Enable verbose output",
    "      --json     Emit JSON-formatted log lines",
    "  -h, --help     Print help",
    "  -V, --version  Print version"]

inductive Failure where
  | readConfiguration (path : Path) (error : ConfigurationError)
  | loadRepository (path : Path) (error : RepositoryError)
  | resolvePlan (error : FetchError)
  | fetch (error : FetchError)
  | writeChangeLog (path : Path) (fault : DiskFault)
  | writeProperties (path : Path) (fault : DiskFault)
  | readChangeLog (path : Path) (error : ChangeLog.FileError)
  deriving Repr

def Failure.message : Failure → String
  | .readConfiguration path _ => "Failed to read build configuration " ++ path.text
  | .loadRepository path _ => "Failed to load repository " ++ path.text
  | .resolvePlan _ => "Failed to resolve load plan"
  | .fetch _ => "Fetch failed"
  | .writeChangeLog path _ => "Failed to write change log " ++ path.text
  | .writeProperties path _ => "Failed to write build properties " ++ path.text
  | .readChangeLog path _ => "Failed to read change log " ++ path.text

structure Workstation where
  disk : Disk
  now : Timestamp
  ids : IdSupply
  /-- What the command has logged. -/
  log : List String := []

/-- A command in progress, whose effects outlive a failure. -/
abbrev CommandM := ExceptT Failure (StateM Workstation)

def readConfiguration (path : Path) : CommandM Configuration := do
  match (← get).disk.read path with
  | .error fault => throw (.readConfiguration path (.invalidJobFile path fault.message))
  | .ok content =>
    match Configuration.ofText content with
    | .ok c => return c
    | .error fault => throw (.readConfiguration path (.invalidJobFile path fault.message))

def loadRepository (path : Path) : CommandM Repository := do
  let w ← get
  match w.disk.read path with
  | .error fault => throw (.loadRepository path (.disk fault))
  | .ok content =>
    match RepositoryFixture.ofText content >>= Repository.ofFixture w.now w.ids with
    | .ok r => return r
    | .error e => throw (.loadRepository path e)

def onJob {α : Type} (job : JobFiles) (failure : FetchError → Failure) (act : Machine → Configuration → FetchM α) :
    CommandM α := do
  let c ← readConfiguration job.configuration
  let server ← loadRepository job.repository
  let w ← get
  let (result, site) := (act { workingDir := job.workingDir, now := w.now } c).run.run { server, disk := w.disk }
  set { w with disk := site.disk, ids := site.server.ids, log := w.log ++ site.progress }
  match result with
  | .ok x => return x
  | .error e => throw (failure e)

def log (message : String) : CommandM Unit := modify fun w => { w with log := w.log ++ [message] }

def changeDisk (failure : DiskFault → Failure) (act : Disk → Except DiskFault Unit × Disk) : CommandM Unit := do
  let w ← get
  let (result, disk) := act w.disk
  set { w with disk }
  match result with
  | .ok () => return ()
  | .error fault => throw (failure fault)

def jsonText (v : Json) : String := Json.toText Json.pretty v ++ "\n"

def Command.execute : Command → CommandM String
  | .plan job format => do
    let r ← onJob job .resolvePlan Fetch.resolve
    return match format with
      | .text => planText r
      | .json => jsonText r.plan.toJson
  | .fetch job changeLog properties => do
    let o ← onJob job .fetch Fetch.run
    if let some path := changeLog then
      changeDisk (.writeChangeLog path) (ChangeLog.save o.report path)
      log ("Wrote change log path=" ++ path.text)
    if let some path := properties then
      changeDisk (.writeProperties path) fun d => d.attempt (d.write path (Json.toText Json.pretty o.properties.toJson))
      log ("Wrote build properties path=" ++ path.text)
    return fetchText o
  | .showChangeLog file format => do
    match ChangeLog.ofFile file (← get).disk with
    | .error e => throw (.readChangeLog file e)
    | .ok report =>
      return match format with
        | .text => reportText report
        | .json => jsonText report.toJson

structure Exit where
  code : UInt8
  output : String := ""
  messages : String := ""
  deriving DecidableEq, Repr

def runProgram (environment : List (String × String)) (args : List String) (w : Workstation) : Exit × Workstation :=
  match Invocation.ofArguments environment args with
  | .error .help => ({ code := 0, output := helpText }, w)
  | .error .version => ({ code := 0, output := versionText }, w)
  | .error .misuse => ({ code := 2, messages := helpText }, w)
  | .ok i =>
    let (result, w) := i.command.execute.run.run { w with log := [] }
    let log := logText i.log w.now w.log
    match result with
    | .ok output => ({ code := 0, output, messages := log }, w)
    | .error failure => ({ code := 1, messages := log ++ unlines ["Error: " ++ failure.message] }, w)

end SandboxFetch.CommandLine
