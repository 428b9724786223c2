/-
  SandboxFetch.Version — dotted server versions such as `6.0.3`.

  A version is a list of 32-bit parts. Versions are compared part by part as numbers, and a part
  that one of them lacks counts as zero: `6.0` and `6.0.0` are equal, `6.0.10` is above `6.0.3`.
  Equality (`==`) is the equality of that order, not of the part lists; the text of a version keeps
  the parts as they were given.

  Reading takes white space off the edges and refuses an empty text, and any part that is not a
  32-bit numeral (`VersionFault`).
-/

import SandboxFetch.Text.Blank
import SandboxFetch.Text.Numeral

namespace SandboxFetch

structure ServerVersion where
  parts : List UInt32
  deriving DecidableEq, Repr, Inhabited

inductive VersionFault where
  | empty
  | notNumeric (text : String)
  deriving DecidableEq, Repr

def VersionFault.message : VersionFault → String
  | .empty => "server version must not be empty"
  | .notNumeric text => "invalid server version: " ++ text

namespace ServerVersion

/-- Part-wise comparison in which missing parts count as zero. -/
def compareParts : List UInt32 → List UInt32 → Ordering
  | [], [] => .eq
  | [], b :: bs => (compare 0 b).then (compareParts [] bs)
  | a :: as, [] => (compare a 0).then (compareParts as [])
  | a :: as, b :: bs => (compare a b).then (compareParts as bs)

instance : Ord ServerVersion := ⟨fun u v => compareParts u.parts v.parts⟩

instance : BEq ServerVersion := ⟨fun u v => compare u v == .eq⟩

instance : LE ServerVersion := leOfOrd

/-- One part of a version: a numeral below 2^32. -/
def partOf? (cs : List Char) : Option UInt32 := (Text.readNat? Text.word32 cs).map UInt32.ofNat

def ofString? (s : String) : Except VersionFault ServerVersion :=
  let text := Text.trim s
  if text.isEmpty then .error .empty
  else
    match (text.toList.splitOn '.').mapM partOf? with
    | some parts => .ok ⟨parts⟩
    | none => .error (.notNumeric text)

def text (v : ServerVersion) : String := ".".intercalate (v.parts.map fun p => Text.writeNat p.toNat)

/-- The first version whose server can load only the components that a load rule covers. -/
def ruleOnlyMinimum : ServerVersion := ⟨[6, 0, 3]⟩

def supportsRuleOnlyLoads (v : ServerVersion) : Bool := (compare v ruleOnlyMinimum).isGE

end ServerVersion

end SandboxFetch
