/-
  SandboxFetch.LoadRule.Gate — what the load-rules policy asks of rule files and server.

  Under `LoadPolicy.loadRules` the rules come from at most one file, that file is in the XML format,
  and the server is new enough to load only what rules cover. Every other policy takes any number
  of files in any format.

  The number of files and the server's version are known before a file is read and are checked
  then (`checkBeforeReading`), so that a file that cannot be read does not hide what is wrong
  anyway. The format is known afterwards (`checkReference`).
-/

import SandboxFetch.LoadRule.Basic
import SandboxFetch.Version

namespace SandboxFetch.LoadRule

def checkReference (policy : Option LoadPolicy) (reference : Option RuleReference) (supportsRuleOnlyLoads : Bool) :
    Except ConfigurationError Unit := do
  if policy = some .loadRules then
    if let some r := reference then
      if r.scope = .perComponent then throw (.severalRuleFiles r.files.length)
      if r.format = .lines then
        let path := ((r.files.find? (·.format == .lines)).map (·.spec.text)).getD ""
        throw (.rulesNotXml path)
    if !supportsRuleOnlyLoads then throw (.serverTooOld ServerVersion.ruleOnlyMinimum.text "")

def checkBeforeReading (policy : Option LoadPolicy) (files : Nat) (server : ServerVersion) :
    Except ConfigurationError Unit := do
  if policy = some .loadRules then
    if 1 < files then throw (.severalRuleFiles files)
    if !server.supportsRuleOnlyLoads then throw (.serverTooOld ServerVersion.ruleOnlyMinimum.text server.text)

end SandboxFetch.LoadRule
