/-
  SandboxFetch.CommandLine.Rendering — what the commands print for people.

  Results go to standard output, the log to standard error. An entry of the log stands behind its
  time; on request it is an object on one line (`logText`).
-/

import SandboxFetch.CommandLine.Command
import SandboxFetch.Fetch.Running
import SandboxFetch.Text.Split

namespace SandboxFetch.CommandLine

/-- Lines, each with its line feed. -/
def unlines (lines : List String) : String := String.join (lines.map (· ++ "\n"))

/-! ## Plans -/

def entryLines (e : PlanEntry) : List String :=
  let place := "  " ++ e.component.name ++ " -> " ++ (if e.folder.isEmpty then "." else e.folder.text)
  match e.scope with
  | .full => [place ++ " (all files)"]
  | .paths selections => (place ++ " (load rule)") :: selections.map ("      /" ++ ·)

def planText (r : ResolvedFetch) : String :=
  unlines <|
    ["Source:      " ++ r.configuration.selection.text, "Workspace:   " ++ r.source.workspace,
      "Server:      " ++ r.version.text, "Destination: " ++ r.plan.root.text, "Digest:      " ++ r.plan.digest, ""] ++
    (if r.plan.isEmpty then ["No components to load"] else r.plan.entries.flatMap entryLines)

/-! ## Fetches -/

def fetchText (o : FetchOutcome) : String :=
  unlines <|
    ["Loaded " ++ Text.writeNat o.files.length ++ " files from " ++ Text.writeNat o.resolved.plan.entries.length ++
        " components into " ++ o.resolved.plan.root.text,
      "Accepted " ++ Text.writeNat o.report.acceptedCount ++ " change sets, discarded " ++
        Text.writeNat o.report.discardedCount] ++
    o.properties.toList.map fun p => "  " ++ p.1 ++ "=" ++ p.2

/-! ## Change logs -/

/-- The first line of a comment. -/
def headline (comment : Option String) : String :=
  match comment with
  | none => "<no comment>"
  | some comment => ((Text.lines comment.toList).head?.map String.ofList).getD ""

def changeSetLines (title : String) (c : ReportedChangeSet) : List String :=
  [title ++ " " ++ c.id ++ " [" ++ c.component.name ++ "] " ++ headline c.comment] ++
    c.workItem.toList.map (fun w => "    work item " ++ w.number ++ ": " ++ w.summary) ++
    (match c.summary? with
      | some summary => ["    " ++ summary]
      | none => c.changes.map fun change => "    " ++ change.kind.key ++ " " ++ change.path)

def reportText (r : ChangeReport) : String :=
  unlines <|
    ["Workspace: " ++ r.workspace] ++ r.baselineName.toList.map ("Baseline:  " ++ ·) ++
    (if r.personal then ["Personal build: changes are not reported"] else []) ++
    (if r.isEmpty then ["No changes"]
      else
        r.componentChanges.map (fun c => "Component " ++ c.action.key ++ " " ++ c.component.name) ++
          r.accepted.values.flatten.flatMap (changeSetLines "Accepted") ++
          r.discarded.values.flatten.flatMap (changeSetLines "Discarded"))

/-! ## The log -/

def logLine (format : OutputFormat) (time : Timestamp) (message : String) : String :=
  match format with
  | .text => time.text ++ " INFO " ++ message
  | .json =>
    Json.toText Json.compact (.object [("timestamp", time.toJson), ("level", .text "INFO"),
      ("fields", .object [("message", .text message)])])

def logText (format : OutputFormat) (time : Timestamp) (messages : List String) : String :=
  unlines (messages.map (logLine format time))

end SandboxFetch.CommandLine
