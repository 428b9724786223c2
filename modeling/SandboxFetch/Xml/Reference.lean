/-
  SandboxFetch.Xml.Reference — character references in attribute values.

  `escape` writes a text so that it can stand between double quotation marks: the five characters
  with a predefined entity become that entity, and line breaks and tabs become numbers, so that no
  reader normalises them away. `unescape` resolves the predefined entities and the decimal and
  hexadecimal numbers of characters other than U+0000; any other reference, and an ampersand that
  no semicolon closes before the next ampersand, is a fault. `unescape` undoes `escape`
  (`unescape_escape`).
-/

import SandboxFetch.Text.Numeral

namespace SandboxFetch.Xml

inductive ReferenceFault where
  | unterminated
  | unknown (name : String)
  | badNumber (digits : String)
  deriving DecidableEq, Repr

def ReferenceFault.message : ReferenceFault → String
  | .unterminated => "unterminated reference"
  | .unknown name => "unknown entity '" ++ name ++ "'"
  | .badNumber digits => "invalid character number '" ++ digits ++ "'"

/-! ## Writing -/

def escapeChar (c : Char) : List Char :=
  if c = '&' then ['&', 'a', 'm', 'p', ';']
  else if c = '<' then ['&', 'l', 't', ';']
  else if c = '>' then ['&', 'g', 't', ';']
  else if c = '\x22' then ['&', 'q', 'u', 'o', 't', ';']
  else if c = '\x27' then ['&', 'a', 'p', 'o', 's', ';']
  else if c = '\n' then ['&', '#', '1', '0', ';']
  else if c = '\r' then ['&', '#', '1', '3', ';']
  else if c = '\t' then ['&', '#', '9', ';']
  else [c]

def escape (cs : List Char) : List Char := cs.flatMap escapeChar

/-! ## Reading -/

/-- The number written with the digits of a radix, when there are any. -/
def numberOf? (radix : Nat) (digits : List Char) : Option Nat :=
  if digits.isEmpty then none
  else (digits.mapM (Text.digitValue? radix)).map fun ds => ds.foldl (fun n d => n * radix + d) 0

/-- The character of a number, which is neither zero nor a surrogate. -/
def charOf? (n : Nat) : Option Char := if n ≠ 0 ∧ n.isValidChar then some (Char.ofNat n) else none

def resolve (name : List Char) : Except ReferenceFault Char :=
  match name with
  | ['l', 't'] => .ok '<'
  | ['g', 't'] => .ok '>'
  | ['a', 'm', 'p'] => .ok '&'
  | ['a', 'p', 'o', 's'] => .ok '\x27'
  | ['q', 'u', 'o', 't'] => .ok '\x22'
  | '#' :: number =>
    let n := match number with
      | 'x' :: digits => numberOf? 16 digits
      | digits => numberOf? 10 digits
    match n.bind charOf? with
    | some c => .ok c
    | none => .error (.badNumber (String.ofList number))
  | _ => .error (.unknown (String.ofList name))

/-- Resolves the references of a text; `open?` holds the name read since an ampersand, last
    character first. -/
def unescapeFrom (open? : Option (List Char)) : List Char → Except ReferenceFault (List Char)
  | [] =>
    match open? with
    | none => .ok []
    | some _ => .error .unterminated
  | c :: rest =>
    match open? with
    | none => if c = '&' then unescapeFrom (some []) rest else (unescapeFrom none rest).map (c :: ·)
    | some name =>
      if c = ';' then
        match resolve name.reverse with
        | .ok d => (unescapeFrom none rest).map (d :: ·)
        | .error e => .error e
      else if c = '&' then .error .unterminated
      else unescapeFrom (some (c :: name)) rest

def unescape (cs : List Char) : Except ReferenceFault (List Char) := unescapeFrom none cs

theorem unescape_escapeChar_append (c : Char) (rest : List Char) :
    unescapeFrom none (escapeChar c ++ rest) = (unescapeFrom none rest).map (c :: ·) := by
  unfold escapeChar
  split; next h => subst h; rfl
  split; next h => subst h; rfl
  split; next h => subst h; rfl
  split; next h => subst h; rfl
  split; next h => subst h; rfl
  split; next h => subst h; rfl
  split; next h => subst h; rfl
  split; next h => subst h; rfl
  next h _ _ _ _ _ _ _ => simp [unescapeFrom, h]

theorem unescape_escape (cs : List Char) : unescape (escape cs) = .ok cs := by
  induction cs with
  | nil => rfl
  | cons c rest ih =>
    rw [unescape, escape, List.flatMap_cons, unescape_escapeChar_append]
    rw [unescape, escape] at ih
    rw [ih]
    rfl

end SandboxFetch.Xml
