/-
  SandboxFetch.Json.Writing — JSON text of a value.

  A value is written in one of two layouts: `pretty`, two spaces per level and one item per line,
  and `compact`, without white space. In both an empty list is `[]` and an empty object has nothing
  between its braces. A string escapes the quotation mark, the backslash and the control characters
  below U+0020, with the short escapes where there are any; every other character stands for
  itself.
-/

import SandboxFetch.Json.Basic
import SandboxFetch.Text.Numeral

namespace SandboxFetch.Json

structure Layout where
  lineBreak : Nat → List Char
  colon : List Char

def pretty : Layout := ⟨fun depth => '\n' :: List.replicate (2 * depth) ' ', [':', ' ']⟩

def compact : Layout := ⟨fun _ => [], [':']⟩

def escapeChar (c : Char) : List Char :=
  if c = '\x22' then ['\\', '\x22']
  else if c = '\\' then ['\\', '\\']
  else if c = '\x08' then ['\\', 'b']
  else if c = '\x0c' then ['\\', 'f']
  else if c = '\n' then ['\\', 'n']
  else if c = '\r' then ['\\', 'r']
  else if c = '\t' then ['\\', 't']
  else if c.toNat < 0x20 then ['\\', 'u', '0', '0', Text.hexDigit (c.toNat / 16), Text.hexDigit (c.toNat % 16)]
  else [c]

def writeText (s : String) : List Char := '\x22' :: (s.toList.flatMap escapeChar ++ ['\x22'])

def writeSign (negative : Bool) : List Char := if negative then ['-'] else []

def writeNumber : JsonNumber → List Char
  | .whole negative n => writeSign negative ++ (Text.writeNat n).toList
  | .scaled negative significand exponent =>
    writeSign negative ++ (Text.writeNat significand).toList ++ 'e' :: (writeSign (exponent < 0) ++
      (Text.writeNat exponent.natAbs).toList)

mutual

/-- The characters of a value whose enclosing lists and objects are `depth` many. -/
def write (layout : Layout) (depth : Nat) : Json → List Char
  | .null => ['n', 'u', 'l', 'l']
  | .bool true => ['t', 'r', 'u', 'e']
  | .bool false => ['f', 'a', 'l', 's', 'e']
  | .number n => writeNumber n
  | .text s => writeText s
  | .array [] => ['[', ']']
  | .array (x :: xs) =>
    '[' :: (layout.lineBreak (depth + 1) ++ write layout (depth + 1) x ++ writeItems layout (depth + 1) xs ++
      layout.lineBreak depth ++ [']'])
  | .object [] => ['\x7b', '\x7d']
  | .object ((k, v) :: ms) =>
    '\x7b' :: (layout.lineBreak (depth + 1) ++ writeText k ++ layout.colon ++ write layout (depth + 1) v ++
      writeMembers layout (depth + 1) ms ++ layout.lineBreak depth ++ ['\x7d'])
  | .unreadable => ['\x22', '\\', 'u', 'd', '8', '0', '0', '\x22']

def writeItems (layout : Layout) (depth : Nat) : List Json → List Char
  | [] => []
  | x :: xs => ',' :: (layout.lineBreak depth ++ write layout depth x ++ writeItems layout depth xs)

def writeMembers (layout : Layout) (depth : Nat) : List (String × Json) → List Char
  | [] => []
  | (k, v) :: ms =>
    ',' :: (layout.lineBreak depth ++ writeText k ++ layout.colon ++ write layout depth v ++
      writeMembers layout depth ms)

end

def toText (layout : Layout) (v : Json) : String := String.ofList (write layout 0 v)

end SandboxFetch.Json
