/-
  SandboxFetch.Proofs.LoadRule.Writing — rules in the XML format are read back as they were written.

  The same rules may be written in many ways (`RuleDocument`): behind byte-order marks and a declaration,
  with any white space between the tags, with a prefix and attributes at the root, and with each path as that
  of a folder or of an item. Whatever texts the rules hold, the document is seen to be in the XML format,
  and read it has the rules that it was written for, in their order (`read_text`).
-/

import SandboxFetch.LoadRule.Markup
import SandboxFetch.Proofs.Results
import SandboxFetch.Proofs.Xml.Tags

namespace SandboxFetch.LoadRule.Markup

open Xml (Event IsName Scans closingText emptyText isNameChar openingText tagOf)

/-! ## Documents -/

structure Gap where
  chars : List Char := []
  blank : chars.all Text.isBlank = true := by decide

inductive Selector where
  | folder
  | item

def Selector.name : Selector → String
  | .folder => "parentFolder"
  | .item => "item"

def refAttribute : ComponentRef → String × String
  | .byName name => ("name", name)
  | .byId id => ("itemId", id)

/-- A rule and how it is written, with the white space behind each of its tags. -/
structure WrittenRule where
  rule : RuleEntry
  selector : Selector := .folder
  opened : Gap := {}
  named : Gap := {}
  selected : Gap := {}
  closed : Gap := {}

namespace WrittenRule

def componentText (r : WrittenRule) : List Char :=
  match r.rule.component with
  | none => []
  | some ref => emptyText "component".toList [refAttribute ref] ++ r.named.chars

def componentEvents (r : WrittenRule) : List Event :=
  match r.rule.component with
  | none => []
  | some ref => [.empty (tagOf "component".toList [refAttribute ref])]

def pathText (r : WrittenRule) : List Char :=
  emptyText r.selector.name.toList [("repositoryPath", r.rule.path)] ++ r.selected.chars

def pathEvent (r : WrittenRule) : Event := .empty (tagOf r.selector.name.toList [("repositoryPath", r.rule.path)])

def text (r : WrittenRule) : List Char :=
  openingText ruleName.toList [] ++ (r.opened.chars ++ r.componentText ++ r.pathText) ++ closingText ruleName.toList ++
    r.closed.chars

def events (r : WrittenRule) : List Event :=
  .opening (tagOf ruleName.toList []) :: (r.componentEvents ++ [r.pathEvent]) ++ [.closing ruleName.toList]

end WrittenRule

structure Declaration where
  body : List Char
  plain : '>' ∉ body := by decide

structure NamePrefix where
  chars : List Char
  inner : chars.all isNameChar = true := by decide
  simple : ':' ∉ chars := by decide

structure RuleDocument where
  /-- How many byte-order marks stand in front. -/
  marks : Nat := 0
  /-- The white space before the first tag. -/
  start : Gap := {}
  /-- A declaration and the white space behind it. -/
  declaration : Option (Declaration × Gap) := none
  rootPrefix : Option NamePrefix := none
  attributes : List (String × String) := []
  named : ∀ k ∈ attributes.map (·.1), IsName k.toList := by decide
  opened : Gap := {}
  rules : List WrittenRule
  closed : Gap := {}

namespace RuleDocument

variable (d : RuleDocument)

def root : List Char :=
  match d.rootPrefix with
  | none => rootName.toList
  | some front => front.chars ++ ':' :: rootName.toList

def declarationText : List Char :=
  match d.declaration with
  | none => []
  | some (declaration, behind) => '<' :: '?' :: ("xml".toList ++ declaration.body) ++ ['?', '>'] ++ behind.chars

def rootText : List Char :=
  openingText d.root d.attributes ++ (d.opened.chars ++ d.rules.flatMap WrittenRule.text) ++ closingText d.root

def text : String :=
  String.ofList (List.replicate d.marks Text.byteOrderMark ++
    (d.start.chars ++ (d.declarationText ++ d.rootText ++ d.closed.chars)))

def events : List Event :=
  .opening (tagOf d.root d.attributes) :: d.rules.flatMap WrittenRule.events ++ [.closing d.root]

end RuleDocument

/-! ## Format -/

namespace Gap

variable (g : Gap)

theorem isBlank_of_mem : ∀ c ∈ g.chars, Text.isBlank c = true := List.all_eq_true.1 g.blank

theorem notMem {c : Char} (solid : Text.isBlank c = false) : c ∉ g.chars := by
  intro member
  rw [g.isBlank_of_mem c member] at solid
  cases solid

theorem scans : Scans g.chars [] := .text (g.notMem (by decide))

end Gap

namespace RuleDocument

variable (d : RuleDocument)

/-- The first tag stands behind marks and white space. -/
theorem head?_tags : (d.declarationText ++ d.rootText ++ d.closed.chars).head? = some '<' := by
  unfold declarationText rootText openingText
  cases d.declaration <;> rfl

theorem dropMarks_text : Text.dropMarks d.text.toList =
    d.start.chars ++ (d.declarationText ++ d.rootText ++ d.closed.chars) := by
  have front : ∀ c ∈ List.replicate d.marks Text.byteOrderMark, (c == Text.byteOrderMark) = true := by simp
  have tags := d.head?_tags
  unfold text Text.dropMarks
  rw [String.toList_ofList, List.dropWhile_append_of_pos front]
  cases gap : d.start.chars with
  | nil =>
    obtain ⟨rest, spelled⟩ := List.head?_eq_some_iff.1 tags
    rw [spelled]
    rfl
  | cons c rest =>
    have other : c ≠ Text.byteOrderMark := by
      rintro rfl
      exact d.start.notMem (by decide) (gap ▸ List.mem_cons_self)
    simp [other]

theorem detect_text : RuleFormat.detect d.text = .xml := by
  obtain ⟨rest, spelled⟩ := List.head?_eq_some_iff.1 d.head?_tags
  unfold RuleFormat.detect
  rw [dropMarks_text, List.dropWhile_append_of_pos d.start.isBlank_of_mem, spelled]
  rfl

end RuleDocument

/-! ## Tags -/

theorem Selector.isName (s : Selector) : IsName s.name.toList := by cases s <;> decide

/-- The attribute of a tag that has only one. -/
theorem named_single {a : String × String} (isName : IsName a.1.toList) : ∀ k ∈ [a].map (·.1), IsName k.toList :=
  fun _ member => List.mem_singleton.1 member ▸ isName

theorem isName_refAttribute (ref : ComponentRef) : IsName (refAttribute ref).1.toList := by
  cases ref with
  | byName _ => exact (by decide : IsName "name".toList)
  | byId _ => exact (by decide : IsName "itemId".toList)

namespace WrittenRule

variable (r : WrittenRule)

theorem scans_component : Scans r.componentText r.componentEvents := by
  unfold componentText componentEvents
  cases r.rule.component with
  | none => exact .nil
  | some ref => exact (Scans.empty (by decide) (named_single (isName_refAttribute ref))).append r.named.scans

theorem scans_path : Scans r.pathText [r.pathEvent] :=
  (Scans.empty r.selector.isName (named_single (by decide : IsName "repositoryPath".toList))).append r.selected.scans

theorem scans : Scans r.text r.events := by
  have inner : Scans (r.opened.chars ++ r.componentText ++ r.pathText) (r.componentEvents ++ [r.pathEvent]) :=
    (r.opened.scans.append r.scans_component).append r.scans_path
  have element : Scans (openingText ruleName.toList [] ++ _ ++ closingText ruleName.toList) _ :=
    .around (by decide) (by decide) inner
  simpa [text, events] using element.append r.closed.scans

end WrittenRule

namespace RuleDocument

variable (d : RuleDocument)

theorem isName_root : IsName d.root := by
  unfold root
  cases d.rootPrefix with
  | none => decide
  | some front =>
    have own : (':' :: rootName.toList).all isNameChar = true := by decide
    refine ⟨by simp, List.all_eq_true.1 ?_⟩
    rw [List.all_append, front.inner, own]
    rfl

theorem localName_root : Xml.localName d.root = rootName := by
  unfold root
  cases d.rootPrefix with
  | none => rfl
  | some front => exact Xml.localName_prefixed front.simple rootName

theorem scans_declaration : Scans d.declarationText [] := by
  unfold declarationText
  cases d.declaration with
  | none => exact .nil
  | some declared =>
    obtain ⟨declaration, behind⟩ := declared
    have plain : '>' ∉ "xml".toList ++ declaration.body := by simp [declaration.plain]
    exact (Scans.instruction plain).append behind.scans

theorem scan_text : Xml.Document.scan (Text.dropMarks d.text.toList) = ⟨d.events, none⟩ := by
  have inner : Scans (d.opened.chars ++ d.rules.flatMap WrittenRule.text) (d.rules.flatMap WrittenRule.events) :=
    d.opened.scans.append (.flatMap fun r _ => r.scans)
  have tags := (d.scans_declaration.append (.around d.isName_root d.named inner)).append d.closed.scans
  have whole := d.start.scans.append tags
  rw [dropMarks_text]
  refine Scans.document ?_
  simpa [rootText, events] using whole

end RuleDocument

/-! ## Reading -/

/-- The one attribute of a tag is found by its name. -/
theorem attribute?_tagOf {name : List Char} {key value : String} (isName : IsName key.toList) (simple : ':' ∉ key.toList)
    (wanted : String) :
    attribute? (tagOf name [(key, value)]) wanted = .ok (if key = wanted then some value else none) := by
  have attributes : (tagOf name [(key, value)]).attributes = ⟨[Xml.rawAttribute (key, value)], none⟩ :=
    Xml.attributes_tagOf (by simpa using isName) (by simp)
  have local' : (Xml.rawAttribute (key, value)).localKey = key := Xml.localName_of_notMem simple
  unfold attribute?
  simp only [attributes]
  by_cases same : key = wanted
  · rw [List.find?_cons_of_pos (by simpa [local'] using same), if_pos same]
    simp [Xml.rawAttribute, Xml.unescape_escape]
  · rw [List.find?_cons_of_neg (by simpa [local'] using same), if_neg same]
    rfl

theorem componentRef_tagOf (name : List Char) (ref : ComponentRef) :
    componentRef (tagOf name [refAttribute ref]) = .ok ref := by
  unfold componentRef
  cases ref with
  | byId id =>
    rw [refAttribute, attribute?_tagOf (by decide) (by decide)]
    rfl
  | byName called =>
    rw [refAttribute, attribute?_tagOf (by decide) (by decide), attribute?_tagOf (by decide) (by decide)]
    rfl

namespace State

variable (current : Option OpenRule) (rule : OpenRule) (rules : List RuleEntry)

theorem step_rule : step ⟨true, current, rules⟩ (.opening (tagOf ruleName.toList [])) = .ok ⟨true, some {}, rules⟩ := rfl

theorem step_component (ref : ComponentRef) :
    step ⟨true, some rule, rules⟩ (.empty (tagOf "component".toList [refAttribute ref])) =
      .ok ⟨true, some { rule with component := some ref }, rules⟩ := by
  have named : (tagOf "component".toList [refAttribute ref]).localName = "component" := rfl
  unfold step start element
  simp only [named, componentRef_tagOf]
  rfl

theorem step_path (s : Selector) (path : String) :
    step ⟨true, some rule, rules⟩ (.empty (tagOf s.name.toList [("repositoryPath", path)])) =
      .ok ⟨true, some { rule with path := some path }, rules⟩ := by
  have named : (tagOf s.name.toList [("repositoryPath", path)]).localName = s.name := by cases s <;> rfl
  have selected : attribute? (tagOf s.name.toList [("repositoryPath", path)]) "repositoryPath" = .ok (some path) :=
    attribute?_tagOf (by decide) (by decide) _
  unfold step start element
  simp only [named, selected]
  cases s <;> rfl

theorem step_close (component : Option ComponentRef) (path : String) :
    step ⟨true, some ⟨component, some path⟩, rules⟩ (.closing ruleName.toList) =
      .ok ⟨true, none, rules ++ [⟨component, path⟩]⟩ := rfl

/-- The tags of a rule add that rule. -/
theorem steps_rule (r : WrittenRule) :
    r.events.foldlM step ⟨true, current, rules⟩ = .ok ⟨true, none, rules ++ [r.rule]⟩ := by
  obtain ⟨⟨component, path⟩, selector⟩ := r
  unfold WrittenRule.events WrittenRule.componentEvents WrittenRule.pathEvent
  rw [List.cons_append, foldlM_cons_of_ok (step_rule current rules)]
  cases component with
  | none =>
    simp only [List.nil_append, List.cons_append]
    rw [foldlM_cons_of_ok (step_path _ _ selector path), foldlM_cons_of_ok (step_close _ _ path)]
    rfl
  | some ref =>
    simp only [List.nil_append, List.cons_append]
    rw [foldlM_cons_of_ok (step_component _ _ ref), foldlM_cons_of_ok (step_path _ _ selector path),
      foldlM_cons_of_ok (step_close _ _ path)]
    rfl

theorem steps_rules (written : List WrittenRule) :
    (written.flatMap WrittenRule.events).foldlM step ⟨true, none, rules⟩ =
      .ok ⟨true, none, rules ++ written.map (·.rule)⟩ := by
  induction written generalizing rules with
  | nil =>
    rw [List.map_nil, List.append_nil]
    rfl
  | cons r rest ih =>
    rw [List.flatMap_cons, foldlM_append_of_ok (steps_rule none rules r), ih, List.append_assoc, List.map_cons]
    rfl

end State

namespace RuleDocument

variable (d : RuleDocument)

theorem step_root : State.step {} (.opening (tagOf d.root d.attributes)) = .ok ⟨true, none, []⟩ := by
  have named : (tagOf d.root d.attributes).localName = rootName := d.localName_root
  unfold State.step State.start
  simp only [named]
  rfl

theorem step_end (s : State) : s.step (.closing d.root) = .ok s := by
  unfold State.step
  simp only [d.localName_root]
  rfl

/-- Rules are read back as they were written. -/
theorem read_text : RuleFormat.detect d.text = .xml ∧ read d.text = .ok (d.rules.map (·.rule)) := by
  refine ⟨d.detect_text, ?_⟩
  have steps : d.events.foldlM State.step {} = .ok ⟨true, none, d.rules.map (·.rule)⟩ := by
    unfold events
    rw [List.cons_append, foldlM_cons_of_ok d.step_root, foldlM_append_of_ok (State.steps_rules [] d.rules),
      foldlM_cons_of_ok (d.step_end _)]
    rfl
  unfold read
  rw [d.scan_text]
  simp only [steps]
  rfl

end RuleDocument

/-- A file as the format is documented. -/
example : RuleDocument.text {
    rootPrefix := some { chars := "scm".toList }
    attributes := [("version", "1"), ("xmlns:scm", "http://com.ibm.team.scm")]
    opened := { chars := "\n  ".toList }
    rules := [{
      rule := ⟨some (.byName "component1"), "/src"⟩
      opened := { chars := "\n    ".toList }
      named := { chars := "\n    ".toList }
      selected := { chars := "\n  ".toList }
      closed := { chars := "\n".toList } }] } =
    "<scm:sourceControlLoadRule version=\"1\" xmlns:scm=\"http://com.ibm.team.scm\">\n" ++
      "  <parentLoadRule>\n    <component name=\"component1\"/>\n" ++
      "    <parentFolder repositoryPath=\"/src\"/>\n  </parentLoadRule>\n</scm:sourceControlLoadRule>" := by
  cbv

end SandboxFetch.LoadRule.Markup
