/-
  SandboxFetch.ChangeLog.Fault — why a document is no change log.
-/

import SandboxFetch.Text.Numeral
import SandboxFetch.Xml.Event
import SandboxFetch.Xml.Reference

namespace SandboxFetch.ChangeLog

inductive Fault where
  | badReference (key : String) (fault : Xml.ReferenceFault)
  | missing (element key : String)
  | notBoolean (element key value : String)
  | unsupportedVersion (version : String)
  | unknownAction (action : String)
  | unknownKind (kind : String)
  | badDate (date : String)
  | badCount (count : String)
  | changeSetOutsideComponent
  | changeSetOutsideSection
  | changeOutsideChangeSet
  | workItemOutsideChangeSet
  | unbalancedChangeSet
  | unfinishedChangeSet
  | componentBeforeRoot
  | changeSetsBeforeRoot
  | noRoot
  deriving DecidableEq, Repr

def Fault.message : Fault → String
  | .badReference key fault => "attribute " ++ key ++ ": " ++ fault.message
  | .missing element key => "<" ++ element ++ "> is missing '" ++ key ++ "'"
  | .notBoolean element key value => "<" ++ element ++ "> has non-boolean " ++ key ++ "=\"" ++ value ++ "\""
  | .unsupportedVersion version => "unsupported change log version " ++ version
  | .unknownAction action => "unknown component action '" ++ action ++ "'"
  | .unknownKind kind => "unknown modification kind '" ++ kind ++ "'"
  | .badDate date => "bad changeSet date '" ++ date ++ "': not a date and time with an offset"
  | .badCount count => "bad changeCount '" ++ count ++ "'"
  | .changeSetOutsideComponent => "<changeSet> outside <component>"
  | .changeSetOutsideSection => "change set outside <accepted> or <discarded>"
  | .changeOutsideChangeSet => "<change> outside <changeSet>"
  | .workItemOutsideChangeSet => "<workItem> outside <changeSet>"
  | .unbalancedChangeSet => "unbalanced </changeSet>"
  | .unfinishedChangeSet => "unterminated <changeSet>"
  | .componentBeforeRoot => "<component> before <changelog>"
  | .changeSetsBeforeRoot => "change sets before <changelog>"
  | .noRoot => "missing <changelog> root element"

inductive Error where
  | malformed (fault : Fault)
  | markup (fault : Xml.Fault)
  | attribute (fault : Xml.AttributeFault)
  deriving DecidableEq, Repr

def Error.message : Error → String
  | .malformed fault => "malformed change log: " ++ fault.message
  | .markup fault => "XML error: " ++ fault.message
  | .attribute fault => "XML attribute error: " ++ fault.message

end SandboxFetch.ChangeLog
