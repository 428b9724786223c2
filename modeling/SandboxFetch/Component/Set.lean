/-
  SandboxFetch.Component.Set — which components are loaded.

  The policies of the configuration pick one of six ways to form the set (`SetOrigin.of`), and with
  it the list of names that counts (`Configuration.namesFor`). Names are looked up in list order: an
  ambiguous one is an error, an unknown one is passed over, and a component named twice counts
  once. The set keeps the order of the server, whatever order the names have, and each component
  brings the rule that the table has for it.
-/

import SandboxFetch.LoadRule.Table

namespace SandboxFetch

inductive SetOrigin where
  /-- The components that a rule covers. -/
  | rulesOnly
  | excludeSome
  | loadAll
  /-- The listed components alone, no policy being set. -/
  | listedOnly
  /-- All but the listed components, no policy being set. -/
  | allButListed
  /-- All components, no policy being set and no name listed. -/
  | unlisted
  deriving DecidableEq, Repr

namespace SetOrigin

def key : SetOrigin → String
  | .rulesOnly => "load_rules_only"
  | .excludeSome => "exclude_some_components"
  | .loadAll => "load_all_components"
  | .listedOnly => "legacy_include"
  | .allButListed => "legacy_exclude"
  | .unlisted => "legacy_all"

def all : List SetOrigin := [.rulesOnly, .excludeSome, .loadAll, .listedOnly, .allButListed, .unlisted]

def byKey : List (String × SetOrigin) := all.map fun o => (o.key, o)

def toJson (o : SetOrigin) : Json := .text o.key

def ofJson (v : Json) : Except Json.Fault SetOrigin := Json.asName byKey v

def of (c : Configuration) : SetOrigin :=
  match c.policy, c.componentPolicy with
  | some .loadRules, _ => .rulesOnly
  | some .componentPolicy, some .excludeSome => .excludeSome
  | some .componentPolicy, _ => .loadAll
  | none, _ => if c.listIncludes then .listedOnly else if c.listedNames.isEmpty then .unlisted else .allButListed

def keeps (o : SetOrigin) (rules : RuleTable) (named : List Component) (c : Component) : Bool :=
  match o with
  | .rulesOnly => (rules.forComponent? c.id).isSome
  | .listedOnly => named.any (·.id == c.id)
  | .excludeSome | .allButListed => !named.any (·.id == c.id)
  | .loadAll | .unlisted => true

end SetOrigin

def Configuration.namesFor (c : Configuration) : SetOrigin → List String
  | .excludeSome => c.excludedNames
  | .listedOnly | .allButListed => c.listedNames
  | .rulesOnly | .loadAll | .unlisted => []

structure SelectedComponent where
  component : Component
  /-- A component without a rule is loaded in full. -/
  rule : Option ComponentRule
  deriving DecidableEq, Repr

structure ComponentSet where
  origin : SetOrigin
  /-- In the order of the server. -/
  selections : List SelectedComponent
  /-- The components that a name in the configuration was found to mean. -/
  named : List Component
  deriving DecidableEq, Repr

namespace ComponentSet

def isEmpty (s : ComponentSet) : Bool := s.selections.isEmpty

def names (s : ComponentSet) : List String := s.selections.map (·.component.name)

def addNamed (all named : List Component) (name : String) : Except ConfigurationError (List Component) := do
  match ← Component.named? all name with
  | some c => return if named.any (·.id == c.id) then named else named ++ [c]
  | none => return named

def lookUp (all : List Component) (names : List String) : Except ConfigurationError (List Component) :=
  names.foldlM (addNamed all) []

def resolve (all : List Component) (c : Configuration) (rules : RuleTable) :
    Except ConfigurationError ComponentSet := do
  let origin := SetOrigin.of c
  let named ← lookUp all (c.namesFor origin)
  return {
    origin
    selections := (all.filter (origin.keeps rules named)).map fun c => ⟨c, rules.forComponent? c.id⟩
    named }

end ComponentSet

/-! ## JSON -/

namespace ComponentRule

def toJson (r : ComponentRule) : Json :=
  .object [("component", r.component.toJson), ("selections", Json.ofList .text r.selections)]

def ofJson (v : Json) : Except Json.Fault ComponentRule := do
  let r ← Json.asRecord ["component", "selections"] v
  return {
    component := ← r.required "component" Component.ofJson
    selections := ← r.required "selections" (Json.asList Json.asText) }

end ComponentRule

namespace SelectedComponent

def toJson (s : SelectedComponent) : Json :=
  .object [("component", s.component.toJson), ("rule", Json.ofOption ComponentRule.toJson s.rule)]

def ofJson (v : Json) : Except Json.Fault SelectedComponent := do
  let r ← Json.asRecord ["component", "rule"] v
  return {
    component := ← r.required "component" Component.ofJson
    rule := ← r.optional "rule" ComponentRule.ofJson }

end SelectedComponent

namespace ComponentSet

def toJson (s : ComponentSet) : Json :=
  .object [("branch", s.origin.toJson), ("selections", Json.ofList SelectedComponent.toJson s.selections),
    ("named", Json.ofList Component.toJson s.named)]

def ofJson (v : Json) : Except Json.Fault ComponentSet := do
  let r ← Json.asRecord ["branch", "selections", "named"] v
  return {
    origin := ← r.required "branch" SetOrigin.ofJson
    selections := ← r.required "selections" (Json.asList SelectedComponent.ofJson)
    named := ← r.required "named" (Json.asList Component.ofJson) }

end ComponentSet

end SandboxFetch
