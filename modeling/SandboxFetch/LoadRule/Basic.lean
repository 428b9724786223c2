/-
  SandboxFetch.LoadRule.Basic — load-rule files and the reference that they make up.

  A load rule restricts what is loaded of a component to some of its paths. Rules stand in files in
  the repository, in one of two formats; a file is in the XML format when the first character after
  byte-order marks and white space is `<` (`RuleFormat.detect`). The configured files together are
  the reference of a run: it counts as line-oriented as soon as one file is, and as one file per
  component as soon as there are two (`RuleReference.classify?`).
-/

import SandboxFetch.Configuration.Basic

namespace SandboxFetch

inductive RuleFormat where
  /-- One `RootFolderName=<path>` per line. -/
  | lines
  | xml
  deriving DecidableEq, Repr

namespace RuleFormat

def key : RuleFormat → String
  | .lines => "legacyLineOriented"
  | .xml => "xmlPerComponent"

def byKey : List (String × RuleFormat) := [lines, xml].map fun f => (f.key, f)

def detect (content : String) : RuleFormat :=
  if ((Text.dropMarks content.toList).dropWhile Text.isBlank).head? == some '<' then .xml else .lines

end RuleFormat

inductive RuleScope where
  | single
  /-- Several files, each for the component that holds it. -/
  | perComponent
  deriving DecidableEq, Repr

def RuleScope.key : RuleScope → String
  | .single => "single"
  | .perComponent => "perComponentMultiple"

inductive ComponentRef where
  | byName (name : String)
  | byId (id : ItemId)
  deriving DecidableEq, Repr

/-- Whether a rule in a component's own file means that component. -/
def ComponentRef.refersTo (r : ComponentRef) (c : Component) : Bool :=
  match r with
  | .byName name => Text.trim name == c.name
  | .byId id => id == c.id

/-- One rule of a file, before its component is looked up. -/
structure RuleEntry where
  component : Option ComponentRef
  path : String
  deriving DecidableEq, Repr

structure RuleFile where
  spec : RuleFileSpec
  /-- The component that holds the file. -/
  owner : Component
  format : RuleFormat
  content : String
  deriving DecidableEq, Repr

structure RuleReference where
  format : RuleFormat
  scope : RuleScope
  files : List RuleFile
  deriving DecidableEq, Repr

namespace RuleReference

def classify? (files : List RuleFile) : Option RuleReference :=
  if files.isEmpty then none
  else
    some {
      format := if files.any (·.format == .lines) then .lines else .xml
      scope := if 1 < files.length then .perComponent else .single
      files }

def describe (r : RuleReference) : String := ",".intercalate (r.files.map (·.spec.text))

end RuleReference

end SandboxFetch
