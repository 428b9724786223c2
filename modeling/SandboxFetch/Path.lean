/-
  SandboxFetch.Path — paths as text.

  A path is kept as it was written; two spellings of one place are different paths. `push` puts
  one separator between a path and what is appended to it, none after an empty path or one that
  ends in a separator, and an absolute path that is appended replaces what is before it.

  To compare paths by place, a path is cut into steps (`steps`): empty segments and `.` are
  dropped, except for a `.` that a relative path begins with. `startsWith` compares steps, so
  `/work` begins `/work/x` and does not begin `/workx`.
-/

import SandboxFetch.Json.Record

namespace SandboxFetch

structure Path where
  text : String
  deriving DecidableEq, Repr, Inhabited

namespace Path

instance : Coe String Path := ⟨Path.mk⟩

def isEmpty (p : Path) : Bool := p.text.isEmpty

def isAbsolute (p : Path) : Bool := p.text.toList.head? == some '/'

def push (p q : Path) : Path :=
  if q.isAbsolute then q
  else if p.isEmpty || p.text.toList.getLast? == some '/' then ⟨p.text ++ q.text⟩
  else ⟨p.text ++ "/" ++ q.text⟩

def segments (p : Path) : List String := (p.text.toList.splitOn '/').map String.ofList

inductive Step where
  | root
  | current
  | parent
  | name (s : String)
  deriving DecidableEq, Repr

def Step.ofSegment? (s : String) : Option Step :=
  if s = "" || s = "." then none else if s = ".." then some .parent else some (.name s)

def steps (p : Path) : List Step :=
  let start :=
    if p.isAbsolute then [Step.root] else if p.segments.head? == some "." then [Step.current] else []
  start ++ p.segments.filterMap Step.ofSegment?

def startsWith (p start : Path) : Bool := start.steps.isPrefixOf p.steps

def Step.text : Step → String
  | .root => "/"
  | .current => "."
  | .parent => ".."
  | .name s => s

def ofSteps (steps : List Step) : Path := steps.foldl (fun p s => p.push ⟨s.text⟩) ⟨""⟩

/-- The path without its last step, unless it is empty or the root. -/
def parent? (p : Path) : Option Path :=
  match p.steps.getLast? with
  | none | some .root => none
  | some _ => some (ofSteps p.steps.dropLast)

def toJson (p : Path) : Json := .text p.text

def ofJson (v : Json) : Except Json.Fault Path := (Json.asText v).map Path.mk

end Path

end SandboxFetch
