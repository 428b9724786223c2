/-
  SandboxFetch.Json.Basic — JSON values.

  Objects keep their members in the order they are written, repeated keys included: whether a
  repeated key is an error is for the reader of a record to say (`Json.Record`). A number keeps the
  difference between a whole number of 64 bits and one that is longer or has a fraction or an
  exponent, because only the former counts things.

  A string may be grammatical and still stand for no text: an escape can name half of a surrogate
  pair. Such a value (and an object with such a key) is `unreadable`; it can be passed over, but
  nothing can be read from it.
-/

import SandboxFetch.Json.Binary64

namespace SandboxFetch

/-- A JSON number: whole, or `significand · 10 ^ exponent`. -/
inductive JsonNumber where
  | whole (negative : Bool) (magnitude : Nat)
  | scaled (negative : Bool) (significand : Nat) (exponent : Int)
  deriving DecidableEq, Repr

inductive Json where
  | null
  | bool (b : Bool)
  | number (n : JsonNumber)
  | text (s : String)
  | array (items : List Json)
  | object (members : List (String × Json))
  /-- A grammatical string or object that names half of a surrogate pair. -/
  | unreadable
  deriving Inhabited, Repr

namespace JsonNumber

def ofNat (n : Nat) : JsonNumber := .whole false n

/-- The count a number stands for, when it is a whole number from zero up to below `limit`. -/
def toNat? (limit : Nat) : JsonNumber → Option Nat
  | .whole false n => if n < limit then some n else none
  | _ => none

def isFinite : JsonNumber → Bool
  | .whole _ n => Json.Binary64.fits n 0
  | .scaled _ significand exponent => Json.Binary64.fits significand exponent

end JsonNumber

namespace Json

/-- Whether a value can be read as a whole: no part of it is unreadable, every number is finite and
    lists and objects are nested at most `depth` deep. -/
def isReadable : Nat → Json → Bool
  | _, .null | _, .bool _ | _, .text _ => true
  | _, .number n => n.isFinite
  | _, .unreadable | 0, .array _ | 0, .object _ => false
  | depth + 1, .array items => items.all (isReadable depth)
  | depth + 1, .object members => members.all fun m => isReadable depth m.2

end Json

end SandboxFetch
