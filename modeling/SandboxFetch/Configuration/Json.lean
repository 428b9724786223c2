/-
  SandboxFetch.Configuration.Json — job files.

  A job file is a JSON record of a configuration. Only the selection has to be there; every other
  key has the default of `Configuration`. Written out, all keys are there, in the same order.
-/

import SandboxFetch.Configuration.Basic

namespace SandboxFetch

namespace LoadPolicy

def byKey : List (String × LoadPolicy) := [loadRules, componentPolicy].map fun p => (p.key, p)

def toJson (p : LoadPolicy) : Json := .text p.key

def ofJson (v : Json) : Except Json.Fault LoadPolicy := Json.asName byKey v

end LoadPolicy

namespace ComponentPolicy

def byKey : List (String × ComponentPolicy) := [all, excludeSome].map fun p => (p.key, p)

def toJson (p : ComponentPolicy) : Json := .text p.key

def ofJson (v : Json) : Except Json.Fault ComponentPolicy := Json.asName byKey v

end ComponentPolicy

namespace RuleFileSpec

def toJson (s : RuleFileSpec) : Json :=
  .object [("component", Json.ofOption .text s.component), ("path", .text s.path)]

def ofJson (v : Json) : Except Json.Fault RuleFileSpec := do
  let r ← Json.asRecord ["component", "path"] v
  return {
    component := ← r.withDefault "component" none (Json.asOption Json.asText)
    path := ← r.required "path" Json.asText }

end RuleFileSpec

namespace PersonalBuild

def toJson (p : PersonalBuild) : Json :=
  .object [("workspace", Json.ofOption .text p.workspace),
    ("load_rules", Json.ofOption (Json.ofList RuleFileSpec.toJson) p.ruleFiles),
    ("build_properties", Json.ofDict .text p.properties)]

def ofJson (v : Json) : Except Json.Fault PersonalBuild := do
  let r ← Json.asRecord ["workspace", "load_rules", "build_properties"] v
  return {
    workspace := ← r.withDefault "workspace" none (Json.asOption Json.asText)
    ruleFiles := ← r.withDefault "load_rules" none (Json.asOption (Json.asList RuleFileSpec.ofJson))
    properties := ← r.withDefault "build_properties" ∅ (Json.asDict Json.asText) }

end PersonalBuild

namespace Configuration

def toJson (c : Configuration) : Json :=
  .object [("selection", c.selection.toJson), ("fetch_destination", .text c.destination),
    ("delete_before_fetch", .bool c.deleteFirst), ("accept_before_fetch", .bool c.acceptFirst),
    ("create_folders_for_components", .bool c.componentFolders),
    ("load_policy", Json.ofOption LoadPolicy.toJson c.policy),
    ("component_load_config", Json.ofOption ComponentPolicy.toJson c.componentPolicy),
    ("components_to_exclude", Json.ofList .text c.excludedNames),
    ("load_components", Json.ofList .text c.listedNames), ("include_components", .bool c.listIncludes),
    ("load_rules", Json.ofList RuleFileSpec.toJson c.ruleFiles),
    ("personal_build", Json.ofOption PersonalBuild.toJson c.personal)]

def keys : List String :=
  ["selection", "fetch_destination", "delete_before_fetch", "accept_before_fetch", "create_folders_for_components",
    "load_policy", "component_load_config", "components_to_exclude", "load_components", "include_components",
    "load_rules", "personal_build"]

def ofJson (v : Json) : Except Json.Fault Configuration := do
  let r ← Json.asRecord keys v
  let standard : Configuration := { selection := ← r.required "selection" Selection.ofJson }
  return { standard with
    destination := ← r.withDefault "fetch_destination" standard.destination Json.asText
    deleteFirst := ← r.withDefault "delete_before_fetch" standard.deleteFirst Json.asBool
    acceptFirst := ← r.withDefault "accept_before_fetch" standard.acceptFirst Json.asBool
    componentFolders := ← r.withDefault "create_folders_for_components" standard.componentFolders Json.asBool
    policy := ← r.withDefault "load_policy" standard.policy (Json.asOption LoadPolicy.ofJson)
    componentPolicy :=
      ← r.withDefault "component_load_config" standard.componentPolicy (Json.asOption ComponentPolicy.ofJson)
    excludedNames := ← r.withDefault "components_to_exclude" standard.excludedNames (Json.asList Json.asText)
    listedNames := ← r.withDefault "load_components" standard.listedNames (Json.asList Json.asText)
    listIncludes := ← r.withDefault "include_components" standard.listIncludes Json.asBool
    ruleFiles := ← r.withDefault "load_rules" standard.ruleFiles (Json.asList RuleFileSpec.ofJson)
    personal := ← r.withDefault "personal_build" standard.personal (Json.asOption PersonalBuild.ofJson) }

def ofText (s : String) : Except Json.Fault Configuration := Json.parse s >>= ofJson

end Configuration

end SandboxFetch
