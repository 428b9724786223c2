/-
  SandboxFetch.Disk.Difference — how to get from one tree to another.

  What is no longer there, or is something else now, is removed from the innermost place outwards;
  then what is new is added from the outermost place inwards. A file that only has other content is
  added over the old one.
-/

import SandboxFetch.Disk.Tree

namespace SandboxFetch.Tree

/-- Whether one node can be put over another without removing that first. -/
def overwrites : Node → Node → Bool
  | .file _, .file _ => true
  | new, old => new == old

/-- The nodes to remove, innermost first. -/
def removals (old new : Tree) : List (Location × Node) :=
  let gone := old.entries.filter fun e => !(new.at? e.1).any (overwrites · e.2)
  gone.mergeSort fun a b => b.1.length ≤ a.1.length

/-- The nodes to add, outermost first. -/
def additions (old new : Tree) : List (Location × Node) :=
  let added := new.entries.filter fun e => old.at? e.1 != some e.2
  added.mergeSort fun a b => a.1.length ≤ b.1.length

end SandboxFetch.Tree
