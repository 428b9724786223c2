/-
  SandboxFetch.LoadRule.Fault — what can be wrong with a load-rule file.
-/

import SandboxFetch.Xml.Event
import SandboxFetch.Xml.Reference

namespace SandboxFetch

inductive RuleFault where
  /-- The path does not say which component holds the file. -/
  | noComponent
  | markup (fault : Xml.Fault)
  | attribute (fault : Xml.AttributeFault)
  | reference (fault : Xml.ReferenceFault)
  | emptyDocument
  | wrongRoot (found : String)
  | componentOutsideRule
  | unnamedComponent
  | pathOutsideRule
  | missingPath
  | unbalancedRule
  | pathlessRule
  /-- A line, counted from 1, that is no rule, comment or blank. -/
  | badLine (number : Nat)
  deriving DecidableEq, Repr

def RuleFault.message : RuleFault → String
  | .noComponent => "path must start with the component name when no component is given"
  | .markup fault => fault.message
  | .attribute fault => fault.message
  | .reference fault => fault.message
  | .emptyDocument => "document is empty"
  | .wrongRoot found => "root element must be sourceControlLoadRule, found " ++ found
  | .componentOutsideRule => "component outside parentLoadRule"
  | .unnamedComponent => "component needs a name or itemId"
  | .pathOutsideRule => "parentFolder or item outside parentLoadRule"
  | .missingPath => "missing repositoryPath"
  | .unbalancedRule => "unbalanced parentLoadRule"
  | .pathlessRule => "parentLoadRule selects no parentFolder or item"
  | .badLine number => "line " ++ Text.writeNat number ++ ": expected RootFolderName=<path>"

end SandboxFetch
