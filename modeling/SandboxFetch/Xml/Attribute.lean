/-
  SandboxFetch.Xml.Attribute — the attributes of a tag.

  After its name, a tag holds attributes: a key up to an equals sign or white space, the equals
  sign, and a value in single or double quotation marks. White space may stand around the equals
  sign and between attributes, and need not. A key begins with any character that is not white
  space and occurs once. Values are kept as written; their references are resolved by whoever
  reads them.

  The first fault ends the list: the attributes before it are still there (`Attributes`), so a
  reader that finds what it looks for in them never meets the fault.
-/

import SandboxFetch.Text.Split

namespace SandboxFetch.Xml

def isSpace (c : Char) : Bool := c == ' ' || c == '\t' || c == '\n' || c == '\r'

/-- The part of a name after its first colon, or all of it. -/
def localName (name : List Char) : String :=
  match Text.cutAt? ':' name with
  | some (_, after) => String.ofList after
  | none => String.ofList name

structure Attribute where
  key : List Char
  /-- Between the quotation marks, references unresolved. -/
  rawValue : List Char
  deriving DecidableEq, Repr

def Attribute.localKey (a : Attribute) : String := localName a.key

inductive AttributeFault where
  | missingEquals
  | missingValue
  | unquotedValue
  | unclosedValue
  | repeatedKey (key : String)
  deriving DecidableEq, Repr

def AttributeFault.message : AttributeFault → String
  | .missingEquals => "an attribute has no equals sign"
  | .missingValue => "an attribute has no value"
  | .unquotedValue => "an attribute value is not quoted"
  | .unclosedValue => "an attribute value is not closed"
  | .repeatedKey key => "attribute '" ++ key ++ "' occurs twice"

/-- The attributes before the first fault, and that fault. -/
structure Attributes where
  found : List Attribute
  fault? : Option AttributeFault
  deriving DecidableEq, Repr

/-- Where a scan of attributes stands; characters read so far are held last one first. -/
inductive AttributeMode where
  | between
  | inKey (key : List Char)
  | afterKey (key : List Char)
  | afterEquals (key : List Char)
  | inValue (key : List Char) (quote : Char) (value : List Char)
  deriving DecidableEq, Repr

namespace Attributes

def stopped (fault : AttributeFault) : Attributes := ⟨[], some fault⟩

def cons (a : Attribute) (as : Attributes) : Attributes := ⟨a :: as.found, as.fault?⟩

def scanFrom (keys : List (List Char)) : AttributeMode → List Char → Attributes
  | .between, [] => ⟨[], none⟩
  | .inKey _, [] | .afterKey _, [] => stopped .missingEquals
  | .afterEquals _, [] => stopped .missingValue
  | .inValue .., [] => stopped .unclosedValue
  | .between, c :: rest => if isSpace c then scanFrom keys .between rest else scanFrom keys (.inKey [c]) rest
  | .inKey key, c :: rest =>
    if c = '=' then
      if keys.contains key.reverse then stopped (.repeatedKey (String.ofList key.reverse))
      else scanFrom keys (.afterEquals key) rest
    else if isSpace c then scanFrom keys (.afterKey key) rest
    else scanFrom keys (.inKey (c :: key)) rest
  | .afterKey key, c :: rest =>
    if c = '=' then
      if keys.contains key.reverse then stopped (.repeatedKey (String.ofList key.reverse))
      else scanFrom keys (.afterEquals key) rest
    else if isSpace c then scanFrom keys (.afterKey key) rest
    else stopped .missingEquals
  | .afterEquals key, c :: rest =>
    if c = '\x22' || c = '\x27' then scanFrom keys (.inValue key c []) rest
    else if isSpace c then scanFrom keys (.afterEquals key) rest
    else stopped .unquotedValue
  | .inValue key quote value, c :: rest =>
    if c = quote then cons ⟨key.reverse, value.reverse⟩ (scanFrom (key.reverse :: keys) .between rest)
    else scanFrom keys (.inValue key quote (c :: value)) rest

def scan (cs : List Char) : Attributes := scanFrom [] .between cs

end Attributes

end SandboxFetch.Xml
