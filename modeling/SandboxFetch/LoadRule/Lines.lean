/-
  SandboxFetch.LoadRule.Lines — the line-oriented format of load rules.

  Each line, without the white space at its edges, is blank, a comment behind `#`, or a rule: the
  key `RootFolderName`, an equals sign, and a path. White space around key and path is not part of
  them, and the path is not empty. The first line that is none of these is a fault; lines are
  counted from 1, the skipped ones included.
-/

import SandboxFetch.LoadRule.Basic
import SandboxFetch.Text.Split

namespace SandboxFetch.LoadRule.Lines

def rootFolderKey : List Char := "RootFolderName".toList

def strip (cs : List Char) : List Char := Text.stripEnds Text.isBlank cs

def path? (line : List Char) : Option (List Char) :=
  match Text.cutAt? '=' line with
  | some (key, value) =>
    if strip key = rootFolderKey ∧ strip value ≠ [] then some (strip value) else none
  | none => none

/-- The rule on a line, if it is neither blank nor a comment. -/
def readLine (number : Nat) (line : List Char) : Except RuleFault (Option RuleEntry) :=
  let line := strip line
  if line.isEmpty || line.head? == some '#' then .ok none
  else
    match path? line with
    | some path => .ok (some ⟨none, String.ofList path⟩)
    | none => .error (.badLine number)

def readFrom (number : Nat) : List (List Char) → Except RuleFault (List RuleEntry)
  | [] => .ok []
  | line :: rest => do
    let rule? ← readLine number line
    let rules ← readFrom (number + 1) rest
    return rule?.toList ++ rules

def read (content : String) : Except RuleFault (List RuleEntry) := readFrom 1 (Text.lines content.toList)

end SandboxFetch.LoadRule.Lines
