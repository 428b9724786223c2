/-
  SandboxFetch.LoadRule.Markup — the XML format of load rules.

  The root element is `sourceControlLoadRule`; each `parentLoadRule` in it is one rule. A rule
  names a component by `itemId` or, failing that, by `name`, or names none, and selects the
  `repositoryPath` of its `parentFolder` or `item`. Elements and attributes are known by their local
  names, other elements are passed over, and where a rule says something twice the last time
  counts. A rule is complete at its closing tag; an empty `parentLoadRule` is none.

  The tags of the document are taken in order by `step`. What is wrong with a tag comes before what
  is wrong with the text after it.
-/

import SandboxFetch.LoadRule.Basic

namespace SandboxFetch.LoadRule.Markup

open Xml

def rootName : String := "sourceControlLoadRule"

def ruleName : String := "parentLoadRule"

structure OpenRule where
  component : Option ComponentRef := none
  path : Option String := none
  deriving DecidableEq, Repr

structure State where
  rootSeen : Bool := false
  current : Option OpenRule := none
  rules : List RuleEntry := []
  deriving DecidableEq, Repr

/-- The value of the first attribute with a local name. An attribute after it is not looked at. -/
def attribute? (tag : Tag) (key : String) : Except RuleFault (Option String) :=
  let attributes := tag.attributes
  match attributes.found.find? (·.localKey == key) with
  | some a =>
    match unescape a.rawValue with
    | .ok value => .ok (some (String.ofList value))
    | .error fault => .error (.reference fault)
  | none =>
    match attributes.fault? with
    | some fault => .error (.attribute fault)
    | none => .ok none

def componentRef (tag : Tag) : Except RuleFault ComponentRef := do
  match ← attribute? tag "itemId" with
  | some id => return .byId id
  | none =>
    match ← attribute? tag "name" with
    | some name => return .byName name
    | none => throw .unnamedComponent

def State.element (s : State) (tag : Tag) : Except RuleFault State :=
  if tag.localName = ruleName then .ok { s with current := some {} }
  else if tag.localName = "component" then
    match s.current with
    | none => .error .componentOutsideRule
    | some rule => do
      let component ← componentRef tag
      return { s with current := some { rule with component := some component } }
  else if tag.localName = "parentFolder" ∨ tag.localName = "item" then
    match s.current with
    | none => .error .pathOutsideRule
    | some rule => do
      match ← attribute? tag "repositoryPath" with
      | none => throw .missingPath
      | some path => return { s with current := some { rule with path := some path } }
  else .ok s

def State.start (s : State) (tag : Tag) : Except RuleFault State :=
  if s.rootSeen then s.element tag
  else if tag.localName = rootName then .ok { s with rootSeen := true }
  else .error (.wrongRoot tag.localName)

def State.closeRule (s : State) : Except RuleFault State :=
  match s.current with
  | none => .error .unbalancedRule
  | some rule =>
    match rule.path with
    | none => .error .pathlessRule
    | some path => .ok { s with current := none, rules := s.rules ++ [⟨rule.component, path⟩] }

def State.step (s : State) : Event → Except RuleFault State
  | .opening tag => s.start tag
  | .empty tag => if s.rootSeen ∧ tag.localName = ruleName then .ok s else s.start tag
  | .closing name => if Xml.localName name = ruleName then s.closeRule else .ok s

def read (content : String) : Except RuleFault (List RuleEntry) := do
  let document := Document.scan (Text.dropMarks content.toList)
  let final ← document.events.foldlM State.step {}
  match document.fault? with
  | some fault => throw (.markup fault)
  | none => if final.rootSeen then return final.rules else throw .emptyDocument

end SandboxFetch.LoadRule.Markup
