/-
  SandboxFetch.Configuration.Fault — failures that whoever configured the build can mend.
-/

import SandboxFetch.Json.Record
import SandboxFetch.LoadRule.Fault
import SandboxFetch.Path

namespace SandboxFetch

inductive ConfigurationError where
  | ambiguousName (name : String) (count : Nat)
  | componentNotFound (name : String)
  | rulesNotXml (path : String)
  | severalRuleFiles (count : Nat)
  | serverTooOld (required actual : String)
  | invalidRuleFile (path : String) (fault : RuleFault)
  | emptyDestination
  | invalidDestination (path : String) (character : Char)
  | invalidFolder (name : String) (character : Char)
  | invalidJobFile (path : Path) (reason : String)
  deriving DecidableEq, Repr

def ConfigurationError.message : ConfigurationError → String
  | .ambiguousName name count =>
    "more than one component with name '" ++ name ++ "' (" ++ Text.writeNat count ++ " matches)"
  | .componentNotFound name => "component '" ++ name ++ "' not found"
  | .rulesNotXml path => "load rules are not provided in XML format: " ++ path
  | .severalRuleFiles count =>
    "multiple load rule files, one per component, is not supported with the \"use load rules\" load policy (" ++
      Text.writeNat count ++ " files configured)"
  | .serverTooOld required actual =>
    "the selected load policy requires server version " ++ required ++ " or later; connected server is " ++ actual
  | .invalidRuleFile path fault => "invalid load rule file '" ++ path ++ "': " ++ fault.message
  | .emptyDestination => "fetch destination must not be empty"
  | .invalidDestination path character =>
    "fetch destination '" ++ path ++ "' contains the character '" ++ character.toString ++
      "', which is not allowed on this platform"
  | .invalidFolder name character =>
    "component '" ++ name ++ "' cannot be used as a folder name: character '" ++ character.toString ++
      "' is not allowed on this platform"
  | .invalidJobFile path reason => "invalid build configuration " ++ path.text ++ ": " ++ reason

end SandboxFetch
