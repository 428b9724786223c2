/-
  SandboxFetch.Load.Scope — which files of a component are loaded.

  A scope is the whole component or a list of selected paths. A selected path takes in the file or
  folder at that path and everything beneath it; `src` takes in `src/a` and not `srcx`. Separators
  at the ends of selections and paths mean nothing, and a selection of nothing but separators is the
  whole component (`LoadScope.includes`).
-/

import SandboxFetch.Json.Record
import SandboxFetch.Text.Blank

namespace SandboxFetch

def bareChars (path : String) : List Char := Text.stripEnds (· == '/') path.toList

/-- A path of a component without separators at its ends. -/
def barePath (path : String) : String := String.ofList (bareChars path)

@[simp] theorem bareChars_barePath (path : String) : bareChars (barePath path) = bareChars path := by
  unfold barePath bareChars
  rw [String.toList_ofList, Text.stripEnds_stripEnds]

/-- Whether a bare path is a bare selection or lies beneath it. -/
def liesWithin (selection path : List Char) : Bool :=
  selection.isEmpty || path == selection || (selection ++ ['/']).isPrefixOf path

inductive LoadScope where
  | full
  /-- What a load rule selects. -/
  | paths (selections : List String)
  deriving DecidableEq, Repr

namespace LoadScope

def includes (scope : LoadScope) (path : String) : Bool :=
  match scope with
  | .full => true
  | .paths selections => selections.any fun s => liesWithin (bareChars s) (bareChars path)

/-! ## JSON

  A request shows a scope as its list of selections, with `null` for the whole component. A plan
  shows it as a record with a tag. -/

def toJson : LoadScope → Json
  | .full => .null
  | .paths selections => Json.ofList .text selections

def ofJson : Json → Except Json.Fault LoadScope
  | .null => .ok .full
  | v => (Json.asList Json.asText v).map .paths

def toTaggedJson : LoadScope → Json
  | .full => .object [("type", .text "full")]
  | .paths selections => .object [("type", .text "rule"), ("paths", Json.ofList .text selections)]

def tags : List (String × Bool) := [("full", false), ("rule", true)]

def ofTaggedJson (v : Json) : Except Json.Fault LoadScope := do
  let r ← Json.asRecord ["type", "paths"] v
  if ← r.required "type" (Json.asName tags) then
    return .paths (← r.required "paths" (Json.asList Json.asText))
  else
    let _ : Option Unit ← r.optional "paths" fun _ => throw (.expected "no paths")
    return .full

end LoadScope

end SandboxFetch
