/-
  SandboxFetch.Json.Record — reading typed data out of JSON values.

  A record is an object: keys it does not know are passed over, a known key may occur once. A
  list stands for a record too, its items in the order of the record's keys. A key that is left
  out takes its default; one without a default must be there, except that an optional key of an
  object may be left out for "nothing" (`Record.optional`). `null` is read as "nothing" where that
  is allowed and refused elsewhere.
-/

import SandboxFetch.Dict
import SandboxFetch.Json.Reading

namespace SandboxFetch.Json

inductive Fault where
  | notJson
  | expected (what : String)
  | missing (key : String)
  | repeated (key : String)
  | surplus
  | unknownName (name : String)
  | invalid (reason : String)
  deriving DecidableEq, Repr

def Fault.message : Fault → String
  | .notJson => "not a JSON text"
  | .expected what => "expected " ++ what
  | .missing key => "missing key '" ++ key ++ "'"
  | .repeated key => "repeated key '" ++ key ++ "'"
  | .surplus => "too many items"
  | .unknownName name => "unknown name '" ++ name ++ "'"
  | .invalid reason => reason

def parse (s : String) : Except Fault Json :=
  match ofText? s with
  | some v => .ok v
  | none => .error .notJson

/-! ## Single values -/

variable {α : Type}

def asText : Json → Except Fault String
  | .text s => .ok s
  | _ => .error (.expected "a string")

def asBool : Json → Except Fault Bool
  | .bool b => .ok b
  | _ => .error (.expected "true or false")

def asNat (limit : Nat) : Json → Except Fault Nat
  | .number n =>
    match n.toNat? limit with
    | some n => .ok n
    | none => .error (.expected "a count")
  | _ => .error (.expected "a count")

def asList (read : Json → Except Fault α) : Json → Except Fault (List α)
  | .array items => items.mapM read
  | _ => .error (.expected "a list")

/-- `null` for nothing, otherwise a value. -/
def asOption (read : Json → Except Fault α) : Json → Except Fault (Option α)
  | .null => .ok none
  | v => (read v).map some

/-- An object as a map; of two members with one key the later one counts. -/
def asDict (read : Json → Except Fault α) : Json → Except Fault (Dict α)
  | .object members => do
    let entries ← members.mapM fun m => do return (m.1, ← read m.2)
    return Dict.ofList entries
  | _ => .error (.expected "an object")

/-- One of a set of names, given as a string or as an object with `null` under the name. -/
def asName (names : List (String × α)) (v : Json) : Except Fault α :=
  let find (name : String) : Except Fault α :=
    match names.lookup name with
    | some x => .ok x
    | none => .error (.unknownName name)
  match v with
  | .text name => find name
  | .object [(name, .null)] => find name
  | _ => .error (.expected "a name")

/-! ## Records -/

structure Record where
  members : List (String × Json)
  /-- The record was given as a list. -/
  positional : Bool
  deriving Repr

def firstRepeated? : List String → Option String
  | [] => none
  | k :: rest => if rest.contains k then some k else firstRepeated? rest

def asRecord (keys : List String) : Json → Except Fault Record
  | .object members =>
    let known := members.filter fun m => keys.contains m.1
    match firstRepeated? (known.map (·.1)) with
    | some key => .error (.repeated key)
    | none => .ok ⟨known, false⟩
  | .array items => if items.length ≤ keys.length then .ok ⟨keys.zip items, true⟩ else .error .surplus
  | _ => .error (.expected "a record")

namespace Record

def required (r : Record) (key : String) (read : Json → Except Fault α) : Except Fault α :=
  match r.members.lookup key with
  | some v => read v
  | none => .error (.missing key)

def withDefault (r : Record) (key : String) (default : α) (read : Json → Except Fault α) : Except Fault α :=
  match r.members.lookup key with
  | some v => read v
  | none => .ok default

/-- The value of a key that may be `null`, and that an object may leave out. -/
def optional (r : Record) (key : String) (read : Json → Except Fault α) : Except Fault (Option α) :=
  match r.members.lookup key with
  | some v => asOption read v
  | none => if r.positional then .error (.missing key) else .ok none

end Record

/-! ## Writing typed data -/

def ofNat (n : Nat) : Json := .number (.ofNat n)

def ofList (write : α → Json) (xs : List α) : Json := .array (xs.map write)

def ofOption (write : α → Json) : Option α → Json
  | none => .null
  | some x => write x

def ofDict (write : α → Json) (d : Dict α) : Json := .object (d.entries.map fun e => (e.1, write e.2))

end SandboxFetch.Json
