/-
  SandboxFetch.Fetch.Resolving — from a configuration to the plan of a run.

  Resolving looks at the destination first and at the server only when that is right. It then
  resolves the source, lists its components, reads the rule files, and from all of these forms the
  table of rules, the component set and the plan. It changes neither the disk nor a source, and
  stops at the first failure.
-/

import SandboxFetch.Disk.Removing
import SandboxFetch.Load.Layout
import SandboxFetch.LoadRule.Gate
import SandboxFetch.Site

namespace SandboxFetch

structure Machine where
  workingDir : Path
  host : Host := .unix
  /-- The time of the run. -/
  now : Timestamp
  hindrances : Hindrances := {}

structure ResolvedFetch where
  /-- The configuration that the run uses. -/
  configuration : Configuration
  version : ServerVersion
  source : SourceHandle
  components : List Component
  reference : Option RuleReference
  set : ComponentSet
  plan : LoadPlan

abbrev FetchM := SiteM FetchError

namespace Fetch

variable {α : Type}

def configured (result : Except ConfigurationError α) : FetchM α :=
  match result with
  | .ok x => pure x
  | .error e => throw (.configuration e)

def served (act : RepositoryM α) : FetchM α := (Site.onServer act).adapt .repository

def readRuleFile (source : SourceHandle) (components : List Component) (spec : RuleFileSpec) : FetchM RuleFile := do
  let (name, path) ← configured spec.location
  match ← configured (Component.named? components name) with
  | none => throw (.configuration (.componentNotFound name))
  | some owner =>
    let content ← served (Repository.contentOf source owner.id path)
    return { spec, owner, content, format := .detect content }

def readReference (c : Configuration) (version : ServerVersion) (source : SourceHandle) (components : List Component) :
    FetchM (Option RuleReference) := do
  configured (LoadRule.checkBeforeReading c.policy c.ruleFiles.length version)
  let files ← c.ruleFiles.mapM (readRuleFile source components)
  let reference := RuleReference.classify? files
  configured (LoadRule.checkReference c.policy reference true)
  return reference

/-- The table of a reference, which has no rules when there is no reference. -/
def ruleTable (reference : Option RuleReference) (components : List Component) : Except ConfigurationError RuleTable :=
  match reference with
  | some reference => RuleTable.ofReference reference components
  | none => .ok {}

def resolve (m : Machine) (job : Configuration) : FetchM ResolvedFetch := do
  let c := job.forRun
  let _ ← configured (resolveDestination c.destination m.workingDir m.host)
  let version ← served Repository.testConnection
  let source ← served (Repository.resolveSource c.selection)
  Site.report ("Resolved " ++ c.selection.text ++ " to workspace " ++ source.workspace)
  let components ← served (Repository.listComponents source)
  let reference ← readReference c version source components
  let rules ← configured (ruleTable reference components)
  let set ← configured (ComponentSet.resolve components c rules)
  let plan ← configured (LoadPlan.layOut set c m.workingDir m.host)
  return { configuration := c, version, source, components, reference, set, plan }

end Fetch

end SandboxFetch
