/-
  SandboxFetch.Timestamp.Rfc3339 — moments as text.

  A moment is written in UTC with `Z` and with as many fraction digits as it needs, of 0, 3, 6 or 9
  (`text`). A year outside 0 to 9999 is written with its sign.

  There are two readers. `ofText?` takes exactly the form of RFC 3339: four digits of year, two of
  everything else, `T`, `t` or one space between date and time, seconds always given, an offset of
  `Z`, `z` or signed hours and minutes with a colon. `ofLooseText?` also takes years of any length
  behind a sign, numbers with fewer digits, white space before numbers and separators, `UTC` for
  the offset, and an offset whose hours and minutes are parted by any colons and white space. Both
  take the minus sign U+2212 for the hyphen of an offset, drop fraction digits after the ninth, and
  refuse a date or time of day that does not exist.
-/

import SandboxFetch.Text.Blank
import SandboxFetch.Text.Numeral
import SandboxFetch.Timestamp.Basic

namespace SandboxFetch.Timestamp

open Text (padded)

/-! ## Writing -/

def writeYear (year : Int) : List Char :=
  if 0 ≤ year && year ≤ 9999 then padded 4 year.toNat
  else (if year < 0 then '-' else '+') :: padded 4 year.natAbs

/-- The shortest of 0, 3, 6 and 9 digits that are exact. -/
def writeFraction (nanosecond : Nat) : List Char :=
  if nanosecond = 0 then []
  else if nanosecond % 1000000 = 0 then '.' :: padded 3 (nanosecond / 1000000)
  else if nanosecond % 1000 = 0 then '.' :: padded 6 (nanosecond / 1000)
  else '.' :: padded 9 nanosecond

def write (t : Timestamp) : List Char :=
  writeYear t.date.year ++ '-' :: padded 2 t.date.month ++ '-' :: padded 2 t.date.day ++
    'T' :: padded 2 t.hour ++ ':' :: padded 2 t.minute ++ ':' :: padded 2 t.second ++
    writeFraction t.nanosecond ++ ['Z']

def text (t : Timestamp) : String := String.ofList t.write

/-! ## Reading parts -/

/-- A number of at least `least` and at most `most` digits at the front of a text. -/
def readDigits? (least most : Nat) (cs : List Char) : Option (Nat × List Char) :=
  let digits := (cs.take most).takeWhile Char.isDigit
  if digits.length < least then none else some (Nat.ofDigitChars 10 digits 0, cs.drop digits.length)

def readChar? (c : Char) : List Char → Option (List Char)
  | d :: rest => if d = c then some rest else none
  | [] => none

def readSeparator? : List Char → Option (List Char)
  | c :: rest => if c = 'T' || c = 't' || c = ' ' then some rest else none
  | [] => none

/-- The nanoseconds of a fraction, zero when there is none. -/
def readFraction? : List Char → Option (Nat × List Char)
  | '.' :: rest => do
    let (n, after) ← readDigits? 1 9 rest
    let places := rest.length - after.length
    return (n * Nat.pow 10 (9 - places), after.dropWhile Char.isDigit)
  | cs => some (0, cs)

/-- The minutes of an offset. The part between hours and minutes is taken by `colon`. -/
def readOffset? (colon : List Char → Option (List Char)) : List Char → Option (Int × List Char)
  | [] => none
  | c :: rest =>
    if c = 'Z' || c = 'z' then some (0, rest)
    else if c = '+' || c = '-' || c = '\u2212' then do
      let (hours, rest) ← readDigits? 2 2 rest
      let rest ← colon rest
      let (minutes, rest) ← readDigits? 2 2 rest
      if minutes < 60 then
        let offset : Int := hours * 60 + minutes
        return (if c = '+' then offset else -offset, rest)
      else none
    else none

/-! ## The exact form -/

def read? (cs : List Char) : Option Timestamp := do
  let (year, cs) ← readDigits? 4 4 cs
  let cs ← readChar? '-' cs
  let (month, cs) ← readDigits? 2 2 cs
  let cs ← readChar? '-' cs
  let (day, cs) ← readDigits? 2 2 cs
  let cs ← readSeparator? cs
  let (hour, cs) ← readDigits? 2 2 cs
  let cs ← readChar? ':' cs
  let (minute, cs) ← readDigits? 2 2 cs
  let cs ← readChar? ':' cs
  let (second, cs) ← readDigits? 2 2 cs
  let (nanosecond, cs) ← readFraction? cs
  let (offset, cs) ← readOffset? (readChar? ':') cs
  if cs.isEmpty then
    let date ← Date.ofParts? year month day
    ofLocal? date hour minute second nanosecond offset
  else none

def ofText? (s : String) : Option Timestamp := read? s.toList

/-! ## The loose form -/

def skipBlanks (cs : List Char) : List Char := cs.dropWhile Text.isBlank

def readShort? (cs : List Char) : Option (Nat × List Char) := readDigits? 1 2 (skipBlanks cs)

/-- A year after white space: at most four digits, or any number of them behind a sign. -/
def readLooseYear? (cs : List Char) : Option (Int × List Char) :=
  match skipBlanks cs with
  | '-' :: rest => (readDigits? 1 rest.length rest).map fun (n, rest) => (-(n : Int), rest)
  | '+' :: rest => (readDigits? 1 rest.length rest).map fun (n, rest) => ((n : Int), rest)
  | cs => (readDigits? 1 4 cs).map fun (n, rest) => ((n : Int), rest)

def skipColons (cs : List Char) : Option (List Char) := some (cs.dropWhile fun c => c == ':' || Text.isBlank c)

/-- The minutes of an offset, which may also be the letters `UTC`. -/
def readLooseOffset? (cs : List Char) : Option (Int × List Char) :=
  if (cs.take 3).map Char.toUpper = ['U', 'T', 'C'] then some (0, cs.drop 3) else readOffset? skipColons cs

def readLoose? (cs : List Char) : Option Timestamp := do
  let (year, cs) ← readLooseYear? cs
  let cs ← readChar? '-' (skipBlanks cs)
  let (month, cs) ← readShort? cs
  let cs ← readChar? '-' (skipBlanks cs)
  let (day, cs) ← readShort? cs
  let cs ← readSeparator? cs
  let (hour, cs) ← readShort? cs
  let cs ← readChar? ':' (skipBlanks cs)
  let (minute, cs) ← readShort? cs
  let cs ← readChar? ':' (skipBlanks cs)
  let (second, cs) ← readShort? cs
  let (nanosecond, cs) ← readFraction? cs
  let (offset, cs) ← readLooseOffset? (skipBlanks cs)
  if (skipBlanks cs).isEmpty then
    let date ← Date.ofParts? year month day
    ofLocal? date hour minute second nanosecond offset
  else none

def ofLooseText? (s : String) : Option Timestamp := readLoose? s.toList

end SandboxFetch.Timestamp
