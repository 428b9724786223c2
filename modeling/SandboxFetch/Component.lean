/-
  SandboxFetch.Component — components and the identities of repository items.

  A component is known by its item id. Names are for people: several components may have the same
  one.
-/

import SandboxFetch.Json.Record

namespace SandboxFetch

/-- The opaque, stable identity of a component, workspace, change set, versionable or baseline. -/
abbrev ItemId := String

structure Component where
  id : ItemId
  name : String
  deriving DecidableEq, Repr, Inhabited

namespace Component

def toJson (c : Component) : Json := .object [("item_id", .text c.id), ("name", .text c.name)]

def ofJson (v : Json) : Except Json.Fault Component := do
  let r ← Json.asRecord ["item_id", "name"] v
  return { id := ← r.required "item_id" Json.asText, name := ← r.required "name" Json.asText }

end Component

end SandboxFetch
