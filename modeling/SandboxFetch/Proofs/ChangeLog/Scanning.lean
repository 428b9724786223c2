/-
  SandboxFetch.Proofs.ChangeLog.Scanning — the lines of a change log are scanned back.

  The names of tags and attributes are words, made of letters alone, and a value stands escaped
  between quotation marks. So a line is scanned as the one tag that it was written for
  (`Line.event`), whatever its values are, and its attributes come back with the values they had
  (`attributesOf_eq`). Elements are closed in the order that they were opened, so a document that
  is put together from them scans without a fault (`Balanced`, `scan_write`).
-/

import SandboxFetch.ChangeLog.Reading
import SandboxFetch.Proofs.Xml.Tags

namespace SandboxFetch.ChangeLog

open Xml (Event Tag Scanner tagOf)

/-! ## Words -/

def IsWord (cs : List Char) : Prop := cs ≠ [] ∧ ∀ c ∈ cs, c.isAlpha = true

instance (cs : List Char) : Decidable (IsWord cs) :=
  decidable_of_iff (cs ≠ [] ∧ cs.all Char.isAlpha = true) (by simp [IsWord])

/-- What is no letter is in no word. -/
theorem ne_of_isAlpha {c d : Char} (h : c.isAlpha = true) (other : d.isAlpha = false) : c ≠ d := by
  rintro rfl
  rw [h] at other
  cases other

theorem notMem_of_isAlpha {c : Char} {others : List Char} (h : c.isAlpha = true)
    (none : others.all (fun d => !d.isAlpha) = true) : c ∉ others := by
  intro member
  have other := List.all_eq_true.1 none c member
  rw [h] at other
  cases other

theorem isNameChar_of_isAlpha {c : Char} (h : c.isAlpha = true) : Xml.isNameChar c = true := by
  have space : c ∉ [' ', '\t', '\n', '\r'] := notMem_of_isAlpha h (by decide)
  have mark : c ∉ ['<', '>', '/', '=', '!', '?', '\x22', '\x27'] := notMem_of_isAlpha h (by decide)
  simp only [List.mem_cons, List.not_mem_nil, or_false, not_or] at space mark
  simp [Xml.isNameChar, Xml.isSpace, space, mark]

theorem IsWord.isName {cs : List Char} (h : IsWord cs) : Xml.IsName cs :=
  ⟨h.1, fun c member => isNameChar_of_isAlpha (h.2 c member)⟩

theorem IsWord.localName {name : String} (h : IsWord name.toList) : Xml.localName name.toList = name :=
  Xml.localName_of_notMem fun member => ne_of_isAlpha (h.2 _ member) (by decide) rfl

structure Line.Plain (l : Line) : Prop where
  name : IsWord l.name.toList
  keys : ∀ k ∈ l.attributes.map (·.1), IsWord k.toList
  distinct : (l.attributes.map (·.1)).Nodup

/-! ## Attributes -/

/-- The attributes of a tag come back with the values they had. -/
theorem attributesOf_eq {name : List Char} {attributes : List (String × String)}
    (words : ∀ k ∈ attributes.map (·.1), IsWord k.toList) (distinct : (attributes.map (·.1)).Nodup) :
    attributesOf (tagOf name attributes) = .ok (Dict.ofList attributes) := by
  have scanned : (tagOf name attributes).attributes = ⟨attributes.map Xml.rawAttribute, none⟩ :=
    Xml.attributes_tagOf (fun k member => (words k member).isName) distinct
  have read : ∀ (l : List (String × String)) (d : Dict String), (∀ k ∈ l.map (·.1), IsWord k.toList) →
      (l.map Xml.rawAttribute).foldlM addAttribute d = .ok (l.foldl (fun d e => d.insert e.1 e.2) d) := by
    intro l
    induction l with
    | nil =>
      intro d _
      rfl
    | cons a rest ih =>
      intro d words
      have first : addAttribute d (Xml.rawAttribute a) = .ok (d.insert a.1 a.2) := by
        have key : (Xml.rawAttribute a).localKey = a.1 := (words a.1 (by simp)).localName
        unfold addAttribute
        rw [key]
        simp [Xml.rawAttribute, Xml.unescape_escape]
      rw [List.map_cons, List.foldlM_cons, first]
      exact ih _ fun k hk => words k (List.mem_cons_of_mem _ hk)
  unfold attributesOf
  rw [scanned]
  simp only
  rw [read attributes ∅ words]
  rfl

/-! ## Lines -/

namespace Line

def tag (l : Line) : Tag := tagOf l.name.toList l.attributes

def event (l : Line) : Event :=
  match l.form with
  | .opening => .opening l.tag
  | .empty => .empty l.tag
  | .closing => .closing l.name.toList

theorem Plain.named {l : Line} (h : l.Plain) : ∀ k ∈ l.attributes.map (·.1), Xml.IsName k.toList :=
  fun k member => (h.keys k member).isName

end Line

/-- The white space around a tag yields nothing. -/
theorem run_framed {tag : List Char} {events : List Event} {openTags openTags' : List (List Char)}
    (h : Scanner.run ⟨.text, openTags⟩ tag = (events, ⟨.text, openTags'⟩)) (indent : Nat) :
    Scanner.run ⟨.text, openTags⟩ (List.replicate indent ' ' ++ tag ++ ['\n']) = (events, ⟨.text, openTags'⟩) := by
  have front := Xml.run_text (List.replicate indent ' ') (by simp) openTags
  have back := Xml.run_text ['\n'] (by decide) openTags'
  rw [Scanner.run_append, Scanner.run_append, front]
  simp only [h, back, List.nil_append, List.append_nil]

theorem Line.Plain.run_opening {l : Line} (h : l.Plain) (form : l.form = .opening) (openTags : List (List Char)) :
    Scanner.run ⟨.text, openTags⟩ l.write = ([l.event], ⟨.text, l.name.toList :: openTags⟩) := by
  have framed := run_framed (Xml.run_openingTag h.name.isName h.named openTags) (2 * l.depth)
  unfold write event
  rw [form]
  exact framed

theorem Line.Plain.run_empty {l : Line} (h : l.Plain) (form : l.form = .empty) (openTags : List (List Char)) :
    Scanner.run ⟨.text, openTags⟩ l.write = ([l.event], ⟨.text, openTags⟩) := by
  have framed := run_framed (Xml.run_emptyTag h.name.isName h.named openTags) (2 * l.depth)
  unfold write event
  rw [form]
  exact framed

/-- A closing tag closes the tag of its name. -/
theorem run_closing (depth : Nat) {name : String} (word : IsWord name.toList) (outer : List (List Char)) :
    Scanner.run ⟨.text, name.toList :: outer⟩ (Line.write ⟨depth, .closing, name, []⟩) =
      ([.closing name.toList], ⟨.text, outer⟩) := by
  have framed := run_framed (Xml.run_closingTag word.isName outer) (2 * depth)
  simpa [Line.write, Xml.closingText] using framed

/-! ## Documents -/

/-- Lines that are scanned back, one tag each, and that close all tags they open. -/
def Balanced (ls : List Line) : Prop :=
  ∀ openTags, Scanner.run ⟨.text, openTags⟩ (ls.flatMap Line.write) = (ls.map Line.event, ⟨.text, openTags⟩)

namespace Balanced

theorem nil : Balanced [] := fun _ => rfl

theorem append {xs ys : List Line} (hx : Balanced xs) (hy : Balanced ys) : Balanced (xs ++ ys) := by
  intro openTags
  rw [List.flatMap_append, List.map_append]
  exact Xml.Scans.append hx hy openTags

theorem flatMap {α : Type} {f : α → List Line} {l : List α} (h : ∀ a ∈ l, Balanced (f a)) :
    Balanced (l.flatMap f) := by
  induction l with
  | nil => exact nil
  | cons a rest ih =>
    rw [List.flatMap_cons]
    exact (h a List.mem_cons_self).append (ih fun b hb => h b (List.mem_cons_of_mem _ hb))

theorem single {l : Line} (plain : l.Plain) (form : l.form = .empty) : Balanced [l] := by
  intro openTags
  have := plain.run_empty form openTags
  simpa using this

theorem map {α : Type} {f : α → Line} {l : List α} (plain : ∀ a ∈ l, (f a).Plain) (form : ∀ a ∈ l, (f a).form = .empty) :
    Balanced (l.map f) := by
  rw [List.map_eq_flatMap]
  exact flatMap fun a ha => single (plain a ha) (form a ha)

/-- An element around balanced lines. -/
theorem around {depth : Nat} {name : String} {attributes : List (String × String)} {inner : List Line}
    (plain : Line.Plain ⟨depth, .opening, name, attributes⟩) (h : Balanced inner) :
    Balanced (⟨depth, .opening, name, attributes⟩ :: inner ++ [⟨depth, .closing, name, []⟩]) := by
  intro openTags
  have first := plain.run_opening rfl openTags
  have last := run_closing depth plain.name openTags
  rw [List.flatMap_append, List.flatMap_cons, Scanner.run_append, Scanner.run_append, first]
  simp only [h (name.toList :: openTags)]
  rw [List.flatMap_singleton, last]
  simp [Line.event]

theorem element {depth : Nat} {name : String} {attributes : List (String × String)} {inner : List Line}
    (plain : ∀ form, Line.Plain ⟨depth, form, name, attributes⟩) (h : Balanced inner) :
    Balanced (element depth name attributes inner) := by
  unfold ChangeLog.element
  split
  · exact single (plain .empty) rfl
  · exact around (plain .opening) h

end Balanced

theorem element_of_inner {depth : Nat} {name : String} {attributes : List (String × String)} {inner : List Line}
    (h : inner ≠ []) : element depth name attributes inner =
      ⟨depth, .opening, name, attributes⟩ :: inner ++ [⟨depth, .closing, name, []⟩] := by
  unfold element
  rw [if_neg]
  simpa using h

/-- A line whose keys are all among some words of the format. -/
theorem Line.plain_of_keys {depth : Nat} {form : TagForm} {name : String} {attributes : List (String × String)}
    (keys : List String) (word : IsWord name.toList) (among : (attributes.map (·.1)).Sublist keys)
    (words : ∀ k ∈ keys, IsWord k.toList) (distinct : keys.Nodup) : Line.Plain ⟨depth, form, name, attributes⟩ :=
  ⟨word, fun k hk => words k (among.subset hk), distinct.sublist among⟩

theorem optional_sublist (key : String) (value : Option String) :
    ((optional key value).map (·.1)).Sublist [key] := by
  cases value with
  | none => exact List.nil_sublist _
  | some v => exact List.Sublist.refl _

theorem plain_workItemLine (primary : Bool) (w : WorkItem) : (workItemLine primary w).Plain :=
  Line.plain_of_keys ["number", "summary", "primary"] (by decide) (List.Sublist.refl _) (by decide)
    (by decide)

theorem plain_changeLine (c : ItemChange) : (changeLine c).Plain := by
  refine Line.plain_of_keys (["kind", "path", "itemId"] ++ ["stateId"]) (by decide) ?_ (by decide) (by decide)
  rw [List.map_append]
  exact (List.Sublist.refl _).append (optional_sublist _ _)

theorem plain_componentChangeLine (c : ComponentChange) : (componentChangeLine c).Plain :=
  Line.plain_of_keys ["itemId", "name", "action"] (by decide) (List.Sublist.refl _) (by decide) (by decide)

def changeSetAttributes (c : ReportedChangeSet) : List (String × String) :=
  [("itemId", c.id)] ++ optional "comment" c.comment ++
    [("date", c.timestamp.text), ("tooManyChanges", writeFlag c.tooMany), ("changeCount", Text.writeNat c.count.toNat)] ++
    optional "message" c.summary?

theorem plain_changeSet (c : ReportedChangeSet) (form : TagForm) :
    Line.Plain ⟨3, form, "changeSet", changeSetAttributes c⟩ := by
  refine Line.plain_of_keys
    (["itemId"] ++ ["comment"] ++ ["date", "tooManyChanges", "changeCount"] ++ ["message"])
    (by decide) ?_ (by decide) (by decide)
  simp only [changeSetAttributes, List.map_append]
  exact (((List.Sublist.refl _).append (optional_sublist _ _)).append (List.Sublist.refl _)).append
    (optional_sublist _ _)

theorem plain_component (id : ItemId) (name : String) (form : TagForm) :
    Line.Plain ⟨2, form, "component", [("itemId", id), ("name", name)]⟩ :=
  Line.plain_of_keys ["itemId", "name"] (by decide) (List.Sublist.refl _) (by decide) (by decide)

theorem plain_root (r : ChangeReport) (form : TagForm) : Line.Plain ⟨0, form, "changelog", rootAttributes r⟩ := by
  refine Line.plain_of_keys
    (["version", "workspaceItemId"] ++ ["baselineSetItemId"] ++ ["baselineSetName"] ++
      ["personalBuild", "changesAccepted", "changesDiscarded", "componentChanges"])
    (by decide) ?_ (by decide) (by decide)
  simp only [rootAttributes, List.map_append]
  exact (((List.Sublist.refl _).append (optional_sublist _ _)).append (optional_sublist _ _)).append
    (List.Sublist.refl _)

theorem plain_section {name : String} (word : IsWord name.toList) (form : TagForm) : Line.Plain ⟨1, form, name, []⟩ :=
  Line.plain_of_keys [] word (List.Sublist.refl _) (by decide) (by decide)

theorem balanced_changeSet (c : ReportedChangeSet) : Balanced (changeSetLines c) :=
  .element (plain_changeSet c) (((Balanced.map (fun x _ => plain_changeLine x) fun _ _ => rfl).append
    (.map (fun x _ => plain_workItemLine true x) fun _ _ => rfl)).append
      (.map (fun x _ => plain_workItemLine false x) fun _ _ => rfl))

theorem balanced_section {name : String} (word : IsWord name.toList) (sets : Dict (List ReportedChangeSet)) :
    Balanced (sectionLines name sets) :=
  .element (plain_section word) (.flatMap fun e _ =>
    .around (plain_component e.1 _ .opening) (.flatMap fun c _ => balanced_changeSet c))

theorem balanced_lines (r : ChangeReport) : Balanced (lines r) :=
  .element (plain_root r) (((Balanced.element (plain_section (by decide))
    (.map (fun x _ => plain_componentChangeLine x) fun _ _ => rfl)).append (balanced_section (by decide) _)).append
      (balanced_section (by decide) _))

/-- A document is scanned back as its lines. -/
theorem scan_write (r : ChangeReport) :
    Xml.Document.scan (Text.dropMarks (write r)) = ⟨(lines r).map Line.event, none⟩ := by
  have mark : Text.dropMarks (write r) = write r := rfl
  have front : Scanner.run Scanner.init declaration = ([], Scanner.init) := by decide
  unfold Xml.Document.scan
  rw [mark, write, Scanner.run_append, front]
  simp only [Scanner.init]
  rw [balanced_lines r []]
  rfl

end SandboxFetch.ChangeLog
