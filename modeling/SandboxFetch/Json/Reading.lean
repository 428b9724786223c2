/-
  SandboxFetch.Json.Reading — the value written in a JSON text.

  The whole text is one value with white space around it (`ofText?`): nothing may follow, a
  byte-order mark may not precede, no comma may trail. Strings hold no control character below
  U+0020 unescaped; `\u` escapes are UTF-16 code units, and two of them that form a surrogate pair
  are one character. A number has no leading zero and has digits on both sides of its point.

  Every function reads from the front of the text and returns what is left. The readers of values,
  items and members call one another with a fuel that bounds the calls; a call either takes a
  character or is the first on it, so twice the length of the text and two is enough.
-/

import SandboxFetch.Json.Basic
import SandboxFetch.Text.Numeral

namespace SandboxFetch.Json

def isSpace (c : Char) : Bool := c == ' ' || c == '\t' || c == '\n' || c == '\r'

def skipSpace (cs : List Char) : List Char := cs.dropWhile isSpace

/-! ## Strings -/

/-- A unit of a string: a character that stands for itself, or a UTF-16 code unit. -/
inductive StringUnit where
  | char (c : Char)
  | code (n : Nat)
  deriving DecidableEq, Repr

def codeUnit? (a b c d : Char) : Option Nat := do
  let a ← Text.digitValue? 16 a
  let b ← Text.digitValue? 16 b
  let c ← Text.digitValue? 16 c
  let d ← Text.digitValue? 16 d
  return ((a * 16 + b) * 16 + c) * 16 + d

def shortEscape? (c : Char) : Option Char :=
  if c = '\x22' then some '\x22'
  else if c = '\\' then some '\\'
  else if c = '/' then some '/'
  else if c = 'b' then some '\x08'
  else if c = 'f' then some '\x0c'
  else if c = 'n' then some '\n'
  else if c = 'r' then some '\r'
  else if c = 't' then some '\t'
  else none

def readUnits : List Char → Option (List StringUnit × List Char)
  | [] => none
  | '\x22' :: rest => some ([], rest)
  | '\\' :: 'u' :: a :: b :: c :: d :: rest =>
    match codeUnit? a b c d with
    | none => none
    | some n => (readUnits rest).map fun (units, rest) => (.code n :: units, rest)
  | '\\' :: e :: rest =>
    match shortEscape? e with
    | none => none
    | some c => (readUnits rest).map fun (units, rest) => (.char c :: units, rest)
  | c :: rest =>
    if c.toNat < 0x20 then none
    else (readUnits rest).map fun (units, rest) => (.char c :: units, rest)

def isHighSurrogate (n : Nat) : Bool := 0xD800 ≤ n && n < 0xDC00

def isLowSurrogate (n : Nat) : Bool := 0xDC00 ≤ n && n < 0xE000

/-- The characters of a sequence of units, when its surrogates are paired. -/
def joinUnits : List StringUnit → Option (List Char)
  | [] => some []
  | .char c :: rest => (joinUnits rest).map (c :: ·)
  | .code high :: .code low :: rest =>
    if isHighSurrogate high then
      if isLowSurrogate low then
        (joinUnits rest).map (Char.ofNat (0x10000 + (high - 0xD800) * 0x400 + (low - 0xDC00)) :: ·)
      else none
    else if isLowSurrogate high then none
    else (joinUnits (.code low :: rest)).map (Char.ofNat high :: ·)
  | .code n :: rest =>
    if isHighSurrogate n || isLowSurrogate n then none else (joinUnits rest).map (Char.ofNat n :: ·)

/-- A string after its opening quotation mark: its text, if it stands for one, and what is left. -/
def readString (cs : List Char) : Option (Option String × List Char) :=
  (readUnits cs).map fun (units, rest) => ((joinUnits units).map String.ofList, rest)

/-! ## Numbers -/

def readDigits (cs : List Char) : List Char × List Char :=
  (cs.takeWhile Char.isDigit, cs.dropWhile Char.isDigit)

def readFraction : List Char → Option (Option (List Char) × List Char)
  | '.' :: rest =>
    let (digits, rest) := readDigits rest
    if digits.isEmpty then none else some (some digits, rest)
  | cs => some (none, cs)

def readExponent : List Char → Option (Option Int × List Char)
  | [] => some (none, [])
  | e :: rest =>
    if e = 'e' || e = 'E' then
      let (negative, rest) := match rest with
        | '-' :: rest => (true, rest)
        | '+' :: rest => (false, rest)
        | rest => (false, rest)
      let (digits, rest) := readDigits rest
      if digits.isEmpty then none
      else
        let n : Int := Nat.ofDigitChars 10 digits 0
        some (some (if negative then -n else n), rest)
    else some (none, e :: rest)

/-- Takes digits into a significand as long as it stays below 2 ^ 64. Gives the significand, how many
    digits it took, and how many were left over. -/
def takeDigits (significand taken : Nat) : List Char → Nat × Nat × Nat
  | [] => (significand, taken, 0)
  | d :: rest =>
    let longer := Nat.ofDigitChars 10 [d] significand
    if longer < Text.word64 then takeDigits longer (taken + 1) rest else (significand, taken, rest.length + 1)

/-- The number with some digits before its point, and perhaps some after it and a power of ten. A
    digit before the point that the significand has no room for counts as a zero, one after it for
    nothing. -/
def numberOf (negative : Bool) (whole : List Char) (fraction : Option (List Char)) (exponent : Option Int) : JsonNumber :=
  let (significand, _, dropped) := takeDigits 0 0 whole
  match fraction, exponent, dropped with
  | none, none, 0 => .whole negative significand
  | _, _, _ =>
    let (significand, places, _) := takeDigits significand 0 (fraction.getD [])
    .scaled negative significand (exponent.getD 0 + dropped - places)

def readNumber (cs : List Char) : Option (JsonNumber × List Char) := do
  let (negative, cs) := match cs with
    | '-' :: rest => (true, rest)
    | cs => (false, cs)
  let (whole, rest) := readDigits cs
  if whole.isEmpty || (whole.head? == some '0' && whole.length != 1) then none
  else
    let (fraction, rest) ← readFraction rest
    let (exponent, rest) ← readExponent rest
    return (numberOf negative whole fraction exponent, rest)

/-! ## Values -/

def ofReadText : Option String → Json
  | some s => .text s
  | none => .unreadable

/-- The value of an object, whose keys are texts unless it is unreadable. -/
def ofReadMembers (members : List (Option String × Json)) : Json :=
  match members.mapM fun m => m.1.map (·, m.2) with
  | some members => .object members
  | none => .unreadable

mutual

def readValue : Nat → List Char → Option (Json × List Char)
  | 0, _ => none
  | fuel + 1, cs =>
    match skipSpace cs with
    | 'n' :: 'u' :: 'l' :: 'l' :: rest => some (.null, rest)
    | 't' :: 'r' :: 'u' :: 'e' :: rest => some (.bool true, rest)
    | 'f' :: 'a' :: 'l' :: 's' :: 'e' :: rest => some (.bool false, rest)
    | '\x22' :: rest => (readString rest).map fun (s, rest) => (ofReadText s, rest)
    | '[' :: rest =>
      match skipSpace rest with
      | ']' :: rest => some (.array [], rest)
      | _ => (readItems fuel rest).map fun (items, rest) => (.array items, rest)
    | '\x7b' :: rest =>
      match skipSpace rest with
      | '\x7d' :: rest => some (.object [], rest)
      | _ => (readMembers fuel rest).map fun (members, rest) => (ofReadMembers members, rest)
    | cs => (readNumber cs).map fun (n, rest) => (.number n, rest)

def readItems : Nat → List Char → Option (List Json × List Char)
  | 0, _ => none
  | fuel + 1, cs =>
    match readValue fuel cs with
    | none => none
    | some (v, rest) =>
      match skipSpace rest with
      | ',' :: rest => (readItems fuel rest).map fun (vs, rest) => (v :: vs, rest)
      | ']' :: rest => some ([v], rest)
      | _ => none

def readMembers : Nat → List Char → Option (List (Option String × Json) × List Char)
  | 0, _ => none
  | fuel + 1, cs =>
    match skipSpace cs with
    | '\x22' :: rest =>
      match readString rest with
      | none => none
      | some (key, rest) =>
        match skipSpace rest with
        | ':' :: rest =>
          match readValue fuel rest with
          | none => none
          | some (v, rest) =>
            match skipSpace rest with
            | ',' :: rest => (readMembers fuel rest).map fun (ms, rest) => ((key, v) :: ms, rest)
            | '\x7d' :: rest => some ([(key, v)], rest)
            | _ => none
        | _ => none
    | _ => none

end

def ofText? (s : String) : Option Json :=
  let cs := s.toList
  match readValue (2 * cs.length + 2) cs with
  | some (v, rest) => if (skipSpace rest).isEmpty then some v else none
  | none => none

end SandboxFetch.Json
