/-
  SandboxFetch.Xml.Event — the tags of a document, in order.

  A document is scanned one character at a time. Its events are its tags: opening, closing and
  empty ones. Text, comments, character data, declarations and instructions yield nothing, and text
  is not looked into. A closing tag names the innermost open tag, prefix included; tags may still
  be open at the end, and there may be any number of roots.

  What ends what: an element tag ends at the first `>` outside quotation marks; a comment at the
  first `-->` that leaves room for both its dashes; character data at `]]>`; a document type at the
  `>` that balances the `<` inside it, and it is not blank; an instruction at `?>`.

  The state of the scan is all that is known of the text before (`run_append`): scanning a text is
  scanning its front and going on from there. A fault stops the scan, and the events before it stay
  (`Document`).
-/

import SandboxFetch.Xml.Attribute

namespace SandboxFetch.Xml

inductive Fault where
  | unclosedTag
  | mismatchedEnd (expected found : String)
  | unmatchedEnd (found : String)
  | badMarkup
  | unclosedComment
  | unclosedData
  | unclosedDoctype
  | emptyDoctype
  | unclosedInstruction
  deriving DecidableEq, Repr

def Fault.message : Fault → String
  | .unclosedTag => "a tag is not closed"
  | .mismatchedEnd expected found => "expected </" ++ expected ++ ">, found </" ++ found ++ ">"
  | .unmatchedEnd found => "no tag is open for </" ++ found ++ ">"
  | .badMarkup => "unknown markup after '<!'"
  | .unclosedComment => "a comment is not closed"
  | .unclosedData => "character data is not closed"
  | .unclosedDoctype => "a document type is not closed"
  | .emptyDoctype => "a document type names nothing"
  | .unclosedInstruction => "an instruction is not closed"

/-- An opening or empty tag: its full name, and what follows the name. -/
structure Tag where
  name : List Char
  body : List Char
  deriving DecidableEq, Repr

namespace Tag

def localName (t : Tag) : String := Xml.localName t.name

def attributes (t : Tag) : Attributes := Attributes.scan t.body

/-- The name is what comes before the first white space. -/
def ofContent (content : List Char) : Tag :=
  ⟨content.takeWhile (!isSpace ·), content.dropWhile (!isSpace ·)⟩

end Tag

inductive Event where
  | opening (tag : Tag)
  | empty (tag : Tag)
  | closing (name : List Char)
  deriving DecidableEq, Repr

/-! ## The scanner -/

/-- Where a scan stands. The characters of the construct it is in are held last one first. -/
inductive Mode where
  | text
  /-- After `<`. -/
  | opened
  | tag (quote : Option Char) (content : List Char)
  /-- After `<!`. -/
  | bang
  | comment (content : List Char)
  | data (content : List Char)
  | doctype (depth : Nat) (content : List Char)
  | instruction (content : List Char)
  | failed (fault : Fault)
  deriving DecidableEq, Repr

structure Scanner where
  mode : Mode
  /-- The names of the open tags, innermost first. -/
  openTags : List (List Char)
  deriving DecidableEq, Repr

namespace Scanner

def init : Scanner := ⟨.text, []⟩

def fail (s : Scanner) (fault : Fault) : Option Event × Scanner := (none, { s with mode := .failed fault })

def resume (s : Scanner) : Scanner := { s with mode := .text }

/-- The name in a closing tag, without the white space after it. -/
def closingName (content : List Char) : List Char :=
  let name := (content.reverse.dropWhile isSpace).reverse
  if name.isEmpty then content else name

/-- Takes a finished tag, given between `<` and `>`. -/
def finishTag (s : Scanner) (content : List Char) : Option Event × Scanner :=
  match content with
  | '/' :: rest =>
    let name := closingName rest
    match s.openTags with
    | [] => s.fail (.unmatchedEnd (String.ofList name))
    | expected :: outer =>
      if name = expected then (some (.closing name), ⟨.text, outer⟩)
      else s.fail (.mismatchedEnd (String.ofList expected) (String.ofList name))
  | _ =>
    if content.getLast? = some '/' then (some (.empty (.ofContent content.dropLast)), s.resume)
    else
      let tag := Tag.ofContent content
      (some (.opening tag), ⟨.text, tag.name :: s.openTags⟩)

def stepTag (s : Scanner) (quote : Option Char) (content : List Char) (c : Char) : Option Event × Scanner :=
  match quote with
  | some q => (none, { s with mode := .tag (if c = q then none else some q) (c :: content) })
  | none =>
    if c = '>' then s.finishTag content.reverse
    else (none, { s with mode := .tag (if c = '\x22' || c = '\x27' then some c else none) (c :: content) })

def doctypeWord : List Char := ['D', 'O', 'C', 'T', 'Y', 'P', 'E']

def finishDoctype (s : Scanner) (content : List Char) : Option Event × Scanner :=
  if (content.take 7).map Char.toUpper ≠ doctypeWord then s.fail .unclosedDoctype
  else if (content.drop 7).all isSpace then s.fail .emptyDoctype
  else (none, s.resume)

/-- The scan after one more character, and the event that the character completes. -/
def step (s : Scanner) (c : Char) : Option Event × Scanner :=
  match s.mode with
  | .text => if c = '<' then (none, { s with mode := .opened }) else (none, s)
  | .opened =>
    if c = '!' then (none, { s with mode := .bang })
    else if c = '?' then (none, { s with mode := .instruction ['?'] })
    else s.stepTag none [] c
  | .tag quote content => s.stepTag quote content c
  | .bang =>
    if c = '-' then (none, { s with mode := .comment ['-'] })
    else if c = '[' then (none, { s with mode := .data ['['] })
    else if c = 'D' || c = 'd' then (none, { s with mode := .doctype 0 [c] })
    else s.fail .badMarkup
  | .comment content =>
    if c = '>' && 4 ≤ content.length && content.take 2 == ['-', '-'] then
      if (content.reverse.take 2) == ['-', '-'] then (none, s.resume) else s.fail .unclosedComment
    else (none, { s with mode := .comment (c :: content) })
  | .data content =>
    if c = '>' && content.take 2 == [']', ']'] then
      if content.reverse.take 7 == ['[', 'C', 'D', 'A', 'T', 'A', '['] then (none, s.resume)
      else s.fail .unclosedData
    else (none, { s with mode := .data (c :: content) })
  | .doctype depth content =>
    if c = '>' then
      match depth with
      | 0 => s.finishDoctype content.reverse
      | depth + 1 => (none, { s with mode := .doctype depth (c :: content) })
    else (none, { s with mode := .doctype (if c = '<' then depth + 1 else depth) (c :: content) })
  | .instruction content =>
    if c = '>' && content.head? == some '?' then
      if content.length ≤ 1 then s.fail .unclosedInstruction else (none, s.resume)
    else (none, { s with mode := .instruction (c :: content) })
  | .failed _ => (none, s)

def run (s : Scanner) : List Char → List Event × Scanner
  | [] => ([], s)
  | c :: rest =>
    let (event?, next) := s.step c
    let (events, last) := next.run rest
    (event?.toList ++ events, last)

theorem run_append (s : Scanner) (xs ys : List Char) :
    s.run (xs ++ ys) = ((s.run xs).1 ++ ((s.run xs).2.run ys).1, ((s.run xs).2.run ys).2) := by
  induction xs generalizing s with
  | nil => simp [run]
  | cons c rest ih => simp [run, ih]

def endFault? (s : Scanner) : Option Fault :=
  match s.mode with
  | .text => none
  | .opened | .tag .. => some .unclosedTag
  | .bang => some .badMarkup
  | .comment _ => some .unclosedComment
  | .data _ => some .unclosedData
  | .doctype .. => some .unclosedDoctype
  | .instruction _ => some .unclosedInstruction
  | .failed fault => some fault

end Scanner

/-- The events of a text before its first fault, and that fault. -/
structure Document where
  events : List Event
  fault? : Option Fault
  deriving DecidableEq, Repr

def Document.scan (cs : List Char) : Document :=
  let (events, last) := Scanner.init.run cs
  ⟨events, last.endFault?⟩

end SandboxFetch.Xml
