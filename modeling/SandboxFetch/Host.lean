/-
  SandboxFetch.Host — the path rules of the machine that a sandbox is made on.

  A host reserves some characters, which no path may contain, and separates the segments of a path
  by some others. On Unix only U+0000 is reserved. On Windows the control characters below U+0020
  and `<`, `>`, `"`, `|`, `?`, `*` are, and besides a colon that does not follow a drive letter at
  the start. A colon is only looked for in a text that has none of the other characters
  (`Host.firstReserved?`).
-/

namespace SandboxFetch

inductive Host where
  | unix
  | windows
  deriving DecidableEq, Repr

namespace Host

/-- The characters that are reserved wherever they stand. -/
def reserves : Host → Char → Bool
  | .unix, c => c == '\x00'
  | .windows, c =>
    c == '<' || c == '>' || c == '\x22' || c == '|' || c == '?' || c == '*' || c.toNat < 0x20

/-- A path after its drive, or all of it when it has none. -/
def afterDrive : List Char → List Char
  | letter :: ':' :: rest => if letter.isAlpha then rest else letter :: ':' :: rest
  | cs => cs

def firstReserved? (h : Host) (cs : List Char) : Option Char :=
  match h with
  | .unix => cs.find? h.reserves
  | .windows => cs.find? h.reserves <|> (afterDrive cs).find? (· == ':')

def separates : Host → Char → Bool
  | .unix, c => c == '/'
  | .windows, c => c == '/' || c == '\\'

def isAbsolute : Host → List Char → Bool
  | .unix, cs => cs.head? == some '/'
  | .windows, letter :: ':' :: c :: _ => windows.separates letter || (letter.isAlpha && windows.separates c)
  | .windows, cs => cs.head?.any windows.separates

end Host

end SandboxFetch
