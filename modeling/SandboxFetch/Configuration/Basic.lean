/-
  SandboxFetch.Configuration.Basic — the source-control settings of a build job.

  A configuration is read once per build and not changed. A personal build, one that a developer
  asks for, brings its own workspace, rule files and property values; `forRun` is the configuration
  that such a build runs with, in which the first two have taken the job's place, and nothing else is
  different (`forRun_eq`). For every other build `forRun` changes nothing
  (`forRun_of_personal_eq_none`).

  A rule file is placed in a component. When the component is not given, the first segment of the
  path names it (`RuleFileSpec.location`).
-/

import SandboxFetch.Configuration.Fault
import SandboxFetch.Selection
import SandboxFetch.Text.Blank

namespace SandboxFetch

inductive LoadPolicy where
  /-- Loads the components that a load rule covers. -/
  | loadRules
  /-- Loads the components that a `ComponentPolicy` says. -/
  | componentPolicy
  deriving DecidableEq, Repr

def LoadPolicy.key : LoadPolicy → String
  | .loadRules => "useLoadRules"
  | .componentPolicy => "useComponentLoadConfig"

/-- Which components are loaded when no load rule decides. -/
inductive ComponentPolicy where
  | all
  | excludeSome
  deriving DecidableEq, Repr

def ComponentPolicy.key : ComponentPolicy → String
  | .all => "loadAllComponents"
  | .excludeSome => "excludeSomeComponents"

/-! ## Rule files -/

structure RuleFileSpec where
  component : Option String
  path : String
  deriving DecidableEq, Repr

namespace RuleFileSpec

def text (s : RuleFileSpec) : String :=
  match s.component with
  | some component => component ++ ":" ++ s.path
  | none => s.path

def location (s : RuleFileSpec) : Except ConfigurationError (String × String) :=
  match s.component with
  | some component => .ok (Text.trim component, s.path)
  | none =>
    match Text.cutAt? '/' (s.path.toList.dropWhile (· == '/')) with
    | some (component, rest) =>
      if component.isEmpty || rest.isEmpty then .error (.invalidRuleFile s.path .noComponent)
      else .ok (String.ofList component, String.ofList rest)
    | none => .error (.invalidRuleFile s.path .noComponent)

end RuleFileSpec

/-! ## Configurations -/

structure PersonalBuild where
  workspace : Option String := none
  ruleFiles : Option (List RuleFileSpec) := none
  /-- Values that win over computed properties. -/
  properties : Dict String := ∅
  deriving DecidableEq

structure Configuration where
  selection : Selection
  /-- Relative to the working directory of the build, or absolute. -/
  destination : String := "."
  /-- Empty the destination before anything is loaded. -/
  deleteFirst : Bool := false
  /-- Accept pending change sets before anything is loaded. -/
  acceptFirst : Bool := true
  /-- Give every component a folder of its own. -/
  componentFolders : Bool := false
  policy : Option LoadPolicy := none
  componentPolicy : Option ComponentPolicy := none
  /-- Names left out under `ComponentPolicy.excludeSome`. -/
  excludedNames : List String := []
  /-- Names that count when no policy is set: the only ones loaded when `listIncludes`, else the
      ones left out. -/
  listedNames : List String := []
  listIncludes : Bool := false
  ruleFiles : List RuleFileSpec := []
  personal : Option PersonalBuild := none
  deriving DecidableEq

namespace Configuration

def isPersonal (c : Configuration) : Bool := c.personal.isSome

/-- The configuration that a run of this job uses. -/
def forRun (c : Configuration) : Configuration :=
  match c.personal with
  | none => c
  | some personal =>
    { c with
      selection := (personal.workspace.map fun name => ⟨.workspace, name⟩).getD c.selection
      ruleFiles := personal.ruleFiles.getD c.ruleFiles }

theorem forRun_of_personal_eq_none {c : Configuration} (h : c.personal = none) : c.forRun = c := by
  unfold forRun; rw [h]

/-- Nothing but the selection and the rule files can be different. -/
theorem forRun_eq (c : Configuration) :
    c.forRun = { c with selection := c.forRun.selection, ruleFiles := c.forRun.ruleFiles } := by
  unfold forRun; split <;> rfl

@[simp] theorem personal_forRun (c : Configuration) : c.forRun.personal = c.personal := by rw [forRun_eq]

@[simp] theorem acceptFirst_forRun (c : Configuration) : c.forRun.acceptFirst = c.acceptFirst := by rw [forRun_eq]

@[simp] theorem deleteFirst_forRun (c : Configuration) : c.forRun.deleteFirst = c.deleteFirst := by rw [forRun_eq]

end Configuration

end SandboxFetch
