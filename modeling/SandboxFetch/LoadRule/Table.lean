/-
  SandboxFetch.LoadRule.Table — which paths each restricted component loads.

  A rule that names no component is for the component that holds its file. In a single file a rule
  may name any component of the source. In one of several files a rule that names a component is
  for the holder of the file too, or is passed over when it means another component.

  A component has at most one entry in the table, with its paths in order of first appearance,
  without separators at their ends and without repetition (`RuleTable.add`).
-/

import SandboxFetch.Component.Lookup
import SandboxFetch.Load.Scope
import SandboxFetch.LoadRule.Lines
import SandboxFetch.LoadRule.Markup

namespace SandboxFetch

structure ComponentRule where
  component : Component
  selections : List String
  deriving DecidableEq, Repr

structure RuleTable where
  rules : List ComponentRule := []
  deriving DecidableEq, Repr

namespace RuleTable

def forComponent? (t : RuleTable) (id : ItemId) : Option ComponentRule := t.rules.find? (·.component.id == id)

def addTo (c : Component) (path : String) : List ComponentRule → List ComponentRule
  | [] => [⟨c, [path]⟩]
  | rule :: rest =>
    if rule.component.id = c.id then
      { rule with selections := if path ∈ rule.selections then rule.selections else rule.selections ++ [path] } :: rest
    else rule :: addTo c path rest

def add (t : RuleTable) (c : Component) (path : String) : RuleTable := ⟨addTo c (barePath path) t.rules⟩

/-- The component that a rule of a file is for; none when the rule is passed over. -/
def target (scope : RuleScope) (components : List Component) (owner : Component) (entry : RuleEntry) :
    Except ConfigurationError (Option Component) :=
  match entry.component, scope with
  | none, _ => .ok (some owner)
  | some ref, .perComponent => .ok (if ref.refersTo owner then some owner else none)
  | some (.byName name), .single => do
    match ← Component.named? components name with
    | some c => return some c
    | none => throw (.componentNotFound name)
  | some (.byId id), .single =>
    match components.find? (·.id == id) with
    | some c => .ok (some c)
    | none => .error (.componentNotFound id)

def entriesOf (file : RuleFile) : Except ConfigurationError (List RuleEntry) :=
  let entries :=
    match file.format with
    | .xml => LoadRule.Markup.read file.content
    | .lines => LoadRule.Lines.read file.content
  entries.mapError (.invalidRuleFile file.spec.text)

def addEntry (scope : RuleScope) (components : List Component) (owner : Component) (t : RuleTable) (entry : RuleEntry) :
    Except ConfigurationError RuleTable := do
  match ← target scope components owner entry with
  | some c => return t.add c entry.path
  | none => return t

def addFile (scope : RuleScope) (components : List Component) (t : RuleTable) (file : RuleFile) :
    Except ConfigurationError RuleTable := do
  let entries ← entriesOf file
  entries.foldlM (addEntry scope components file.owner) t

def ofReference (reference : RuleReference) (components : List Component) : Except ConfigurationError RuleTable :=
  reference.files.foldlM (addFile reference.scope components) {}

end RuleTable

end SandboxFetch
