/-
  SandboxFetch.Load.Digest — a short name for a plan.

  Two plans with the same entries have the same digest, wherever their destinations are. The digest
  is the hash of the entries' bytes: of each entry the id, the name, the scope and the folder, kept
  apart by zero bytes and closed by a byte that occurs in no text.
-/

import SandboxFetch.Digest.Sha256
import SandboxFetch.Load.Plan

namespace SandboxFetch

def textBytes (s : String) : List UInt8 := s.toList.flatMap String.utf8EncodeChar

def LoadScope.bytes : LoadScope → List UInt8
  | .full => textBytes "full"
  | .paths selections => textBytes "rule" ++ selections.flatMap fun s => 0 :: textBytes s

/-- A folder with one kind of separator. -/
def folderText (folder : Path) : String := String.ofList (folder.text.toList.map fun c => if c = '\\' then '/' else c)

def PlanEntry.bytes (e : PlanEntry) : List UInt8 :=
  textBytes e.component.id ++ 0 :: textBytes e.component.name ++ 0 :: e.scope.bytes ++
    0 :: textBytes (folderText e.folder) ++ [0xff]

namespace LoadPlan

/-- What the digest of a plan is the hash of. -/
def bytes (p : LoadPlan) : List UInt8 := p.entries.flatMap PlanEntry.bytes

def digest (p : LoadPlan) : String := Sha256.hexHash p.bytes

end LoadPlan

end SandboxFetch
