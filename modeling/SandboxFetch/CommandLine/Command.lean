/-
  SandboxFetch.CommandLine.Command — what the program is asked to do.

  There are three commands: `plan` shows what a fetch would load, `fetch` carries it out, and
  `changelog show` prints a change log. The first two need a job file and a repository file, given
  as options or in the environment; an option wins. The flags for the log may stand on any level
  (`Invocation`).
-/

import SandboxFetch.CommandLine.Arguments
import SandboxFetch.Path

namespace SandboxFetch.CommandLine

inductive OutputFormat where
  | text
  | json
  deriving DecidableEq, Repr

def OutputFormat.byKey : List (String × OutputFormat) := [("text", .text), ("json", .json)]

structure JobFiles where
  configuration : Path
  repository : Path
  workingDir : Path
  deriving DecidableEq, Repr

inductive Command where
  | plan (job : JobFiles) (format : OutputFormat)
  | fetch (job : JobFiles) (changeLog properties : Option Path)
  | showChangeLog (file : Path) (format : OutputFormat)
  deriving DecidableEq, Repr

structure Invocation where
  command : Command
  log : OutputFormat
  deriving DecidableEq, Repr

/-! ## The levels -/

def logFlags : List OptionSpec := [⟨"verbose", some 'v', none⟩, ⟨"json", none, none⟩]

def formatOption : OptionSpec := ⟨"format", none, some (.oneOf (OutputFormat.byKey.map (·.1)))⟩

def jobOptions : List OptionSpec :=
  [⟨"config", some 'c', some .path⟩, ⟨"repository", some 'r', some .path⟩, ⟨"workdir", some 'w', some .path⟩]

def topLevel : Level :=
  { options := logFlags, subcommands := ["plan", "fetch", "changelog", "help"], hasVersion := true }

def planLevel : Level := { options := logFlags ++ jobOptions ++ [formatOption] }

def fetchLevel : Level :=
  { options := logFlags ++ jobOptions ++ [⟨"changelog", none, some .path⟩, ⟨"properties", none, some .path⟩] }

def changeLogLevel : Level := { options := logFlags, subcommands := ["show", "help"] }

def showLevel : Level := { options := logFlags ++ [formatOption], operands := 1 }

/-! ## Commands of arguments -/

/-- The variables that stand in for options. -/
def variableOf : String → Option String
  | "config" => some "BUILDFETCH_CONFIG"
  | "repository" => some "BUILDFETCH_REPOSITORY"
  | _ => none

/-- The value of an option that must be given as such or in the environment. -/
def requiredPath (environment : List (String × String)) (a : Arguments) (option : String) : Except Stop Path :=
  match a.values.lookup option <|> (variableOf option).bind fun name => environment.lookup name with
  | some value => if ValueKind.path.accepts value then .ok ⟨value⟩ else .error .misuse
  | none => .error .misuse

def jobOf (environment : List (String × String)) (a : Arguments) : Except Stop JobFiles := do
  return {
    configuration := ← requiredPath environment a "config"
    repository := ← requiredPath environment a "repository"
    workingDir := ⟨(a.values.lookup "workdir").getD "."⟩ }

def formatOf (a : Arguments) : OutputFormat :=
  ((a.values.lookup "format").bind fun name => OutputFormat.byKey.lookup name).getD .text

def helpOn : List String → Stop
  | [] | ["plan"] | ["fetch"] | ["help"] | ["changelog"] | ["changelog", "show"] | ["changelog", "help"] => .help
  | _ => .misuse

def logFormatOf (levels : List Arguments) : OutputFormat :=
  if levels.any (·.flags.contains "json") then .json else .text

namespace Invocation

def ofPlan (environment : List (String × String)) (top : Arguments) (args : List String) : Except Stop Invocation := do
  let a ← planLevel.scan args
  return { command := .plan (← jobOf environment a) (formatOf a), log := logFormatOf [top, a] }

def ofFetch (environment : List (String × String)) (top : Arguments) (args : List String) : Except Stop Invocation := do
  let a ← fetchLevel.scan args
  let path? (option : String) : Option Path := (a.values.lookup option).map Path.mk
  return {
    command := .fetch (← jobOf environment a) (path? "changelog") (path? "properties")
    log := logFormatOf [top, a] }

def ofChangeLog (top : Arguments) (args : List String) : Except Stop Invocation := do
  let a ← changeLogLevel.scan args
  match a.rest with
  | some ("show", args) =>
    let b ← showLevel.scan args
    match b.operands with
    | [file] => return { command := .showChangeLog ⟨file⟩ (formatOf b), log := logFormatOf [top, a, b] }
    | _ => throw .misuse
  | some (_, topic) => throw (helpOn ("changelog" :: topic))
  | none => throw .misuse

def ofArguments (environment : List (String × String)) (args : List String) : Except Stop Invocation := do
  let top ← topLevel.scan args
  match top.rest with
  | some ("plan", args) => ofPlan environment top args
  | some ("fetch", args) => ofFetch environment top args
  | some ("changelog", args) => ofChangeLog top args
  | some (_, topic) => throw (helpOn topic)
  | none => throw .misuse

end Invocation

end SandboxFetch.CommandLine
