/-
  SandboxFetch.CommandLine.Arguments — options, operands and subcommands of an argument list.

  Each level of a command knows some options and perhaps some subcommands or operands; the first
  argument that names a subcommand ends the level. An option has a long name behind two dashes and
  may have a letter behind one. Letters can be bundled. The value of an option is the rest of its
  argument, with or without an equals sign behind a letter and with one behind a long name, or else
  the next argument, which then must not look like an option. After `--` every argument is an
  operand.

  No option may occur twice on a level. `--help` and `-h` on any level, and `--version` and `-V` on
  the first, stop the scan where they stand, and so does the first argument that is wrong.
-/

import SandboxFetch.Text.Split

namespace SandboxFetch.CommandLine

inductive Stop where
  | help
  | version
  | misuse
  deriving DecidableEq, Repr

inductive ValueKind where
  /-- Any text but the empty one. -/
  | path
  | oneOf (names : List String)
  deriving DecidableEq, Repr

def ValueKind.accepts : ValueKind → String → Bool
  | .path, value => !value.isEmpty
  | .oneOf names, value => names.contains value

structure OptionSpec where
  long : String
  short : Option Char := none
  /-- A flag has no value. -/
  value : Option ValueKind := none
  deriving DecidableEq, Repr

structure Level where
  options : List OptionSpec
  subcommands : List String := []
  /-- How many operands there may be; each is a path. -/
  operands : Nat := 0
  hasVersion : Bool := false
  deriving DecidableEq, Repr

structure Arguments where
  /-- The long names of the flags that are set. -/
  flags : List String := []
  /-- Values by the long names of their options. -/
  values : List (String × String) := []
  operands : List String := []
  /-- The subcommand and the arguments after it. -/
  rest : Option (String × List String) := none
  deriving DecidableEq, Repr

namespace Arguments

def setFlag (a : Arguments) (o : OptionSpec) : Except Stop Arguments :=
  if a.flags.contains o.long then .error .misuse else .ok { a with flags := a.flags ++ [o.long] }

def setValue (a : Arguments) (o : OptionSpec) (value : String) : Except Stop Arguments :=
  if (a.values.lookup o.long).isNone && o.value.any (·.accepts value) then
    .ok { a with values := a.values ++ [(o.long, value)] }
  else .error .misuse

end Arguments

namespace Level

def addOperand (l : Level) (a : Arguments) (operand : String) : Except Stop Arguments :=
  if a.operands.length < l.operands && ValueKind.path.accepts operand then
    .ok { a with operands := a.operands ++ [operand] }
  else .error .misuse

/-- Takes an argument behind two dashes. An option whose value is the next argument is left
    pending. -/
def longOption (l : Level) (a : Arguments) (text : List Char) : Except Stop (Arguments × Option OptionSpec) := do
  let (name, value?) := match Text.cutAt? '=' text with
    | some (name, value) => (String.ofList name, some (String.ofList value))
    | none => (String.ofList text, none)
  match l.options.find? (·.long == name), value? with
  | some o, none => if o.value.isSome then return (a, some o) else return (← a.setFlag o, none)
  | some o, some value => return (← a.setValue o value, none)
  | none, none =>
    if name = "help" then throw .help
    else if name = "version" ∧ l.hasVersion then throw .version
    else throw .misuse
  | none, some _ => throw .misuse

def shortOptions (l : Level) (a : Arguments) : List Char → Except Stop (Arguments × Option OptionSpec)
  | [] => .ok (a, none)
  | letter :: rest =>
    match l.options.find? (·.short == some letter) with
    | some o =>
      if o.value.isSome then
        match rest with
        | [] => .ok (a, some o)
        | '=' :: value => do return (← a.setValue o (String.ofList value), none)
        | value => do return (← a.setValue o (String.ofList value), none)
      else
        match a.setFlag o with
        | .ok a => shortOptions l a rest
        | .error stop => .error stop
    | none =>
      if letter = 'h' then .error .help
      else if letter = 'V' ∧ l.hasVersion then .error .version
      else .error .misuse

/-- Scans arguments behind those already read; `pending` is an option that waits for its value. -/
def scanFrom (l : Level) (pending : Option OptionSpec) (a : Arguments) : List String → Except Stop Arguments
  | [] => if pending.isSome then .error .misuse else .ok a
  | arg :: rest =>
    match pending, arg.toList with
    | some _, '-' :: _ :: _ => .error .misuse
    | some o, _ =>
      match a.setValue o arg with
      | .ok a => scanFrom l none a rest
      | .error stop => .error stop
    | none, ['-', '-'] => rest.foldlM l.addOperand a
    | none, '-' :: '-' :: text =>
      match l.longOption a text with
      | .ok (a, pending) => scanFrom l pending a rest
      | .error stop => .error stop
    | none, '-' :: letter :: more =>
      match l.shortOptions a (letter :: more) with
      | .ok (a, pending) => scanFrom l pending a rest
      | .error stop => .error stop
    | none, _ =>
      if l.subcommands.contains arg then .ok { a with rest := some (arg, rest) }
      else
        match l.addOperand a arg with
        | .ok a => scanFrom l none a rest
        | .error stop => .error stop

def scan (l : Level) (args : List String) : Except Stop Arguments := l.scanFrom none {} args

end Level

end SandboxFetch.CommandLine
