/-
  SandboxFetch.Properties — the values that a build hands on to its host.

  The keys are fixed. A value that does not apply to a run is left out, never empty: the listed
  components when there are none, the snapshot when neither the accept nor the source has one, the
  number of accepted change sets when no accept ran. The values of a personal build win over the
  computed ones (`Properties.compute`).
-/

import SandboxFetch.ChangeSet
import SandboxFetch.Component.Set

namespace SandboxFetch

abbrev Properties := Dict String

structure PropertyInputs where
  /-- The configuration that the run used. -/
  configuration : Configuration
  source : SourceHandle
  reference : Option RuleReference
  set : ComponentSet
  /-- How many change sets were accepted, when an accept ran. -/
  accepted : Option Nat
  baseline : Option Baseline

namespace Properties

def ofFlag (b : Bool) : String := if b then "true" else "false"

def joinIds (components : List Component) : String := ",".intercalate (components.map (·.id))

/-- A property that is only there when it has a value. -/
def optional (key : String) (value : Option String) : List (String × String) := (value.map fun v => (key, v)).toList

def ofListing (s : ComponentSet) : List (String × String) :=
  let ids := joinIds s.named
  let listed := if ids.isEmpty then [] else [("team_scm_loadComponents", ids)]
  match s.origin with
  | .listedOnly => ("team_scm_includeComponents", ofFlag true) :: listed
  | .allButListed | .excludeSome => listed
  | .rulesOnly | .loadAll | .unlisted => []

def computed (i : PropertyInputs) : List (String × String) :=
  let c := i.configuration
  let snapshot := i.baseline.map (·.id) <|> i.source.snapshot
  [("team_scm_workspaceUUID", i.source.workspace), ("team_scm_fetchDestination", c.destination),
      ("team_scm_deleteDestinationBeforeFetch", ofFlag c.deleteFirst),
      ("team_scm_acceptBeforeFetch", ofFlag c.acceptFirst),
      ("team_scm_createFoldersForComponents", ofFlag c.componentFolders)] ++
    optional "team_scm_componentLoadRules" (i.reference.map (·.describe)) ++ ofListing i.set ++
    optional "team_scm_snapshotUUID" snapshot ++
    optional "team_scm_changesAccepted" (i.accepted.map Text.writeNat) ++
    optional "team_scm_loadPolicy" (c.policy.map (·.key)) ++
    optional "team_scm_componentLoadConfig" (c.componentPolicy.map (·.key))

def compute (i : PropertyInputs) : Properties :=
  let personal := (i.configuration.personal.map fun p => p.properties.toList).getD []
  Dict.ofList (computed i ++ personal)

def toJson (p : Properties) : Json := Json.ofDict .text p

end Properties

end SandboxFetch
