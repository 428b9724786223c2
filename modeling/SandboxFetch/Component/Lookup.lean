/-
  SandboxFetch.Component.Lookup — components by name.

  White space at the edges of both names is ignored. A name that more than one component has is an
  error; a name that none has is not (`named?`).
-/

import SandboxFetch.Component
import SandboxFetch.Configuration.Fault
import SandboxFetch.Text.Blank

namespace SandboxFetch.Component

/-- Whether a component has a name, up to white space at the edges. -/
def isNamed (name : String) (c : Component) : Bool := Text.trim c.name == Text.trim name

def named? (all : List Component) (name : String) : Except ConfigurationError (Option Component) :=
  match all.filter (isNamed name) with
  | [] => .ok none
  | [c] => .ok (some c)
  | several => .error (.ambiguousName (Text.trim name) several.length)

end SandboxFetch.Component
