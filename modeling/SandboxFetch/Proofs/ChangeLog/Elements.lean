/-
  SandboxFetch.Proofs.ChangeLog.Elements — what each element of a change log tells its reader.

  The reader is fed the lines of a document in order (`feed`). Each kind of line has one law that
  says what the reader knows after it; the laws of the elements around them follow by going through
  the lines inside. A change set tells all it was written with, but for its component, which is that
  of the element around it, and its count (`feed_changeSet`). One whose time is out of range stops the
  reader with a fault (`feed_changeSet_refused`).
-/

import SandboxFetch.Proofs.ChangeLog.Scanning
import SandboxFetch.Proofs.Dict
import SandboxFetch.Proofs.Timestamp.Text

namespace SandboxFetch.ChangeLog

theorem ok_bind {α β : Type} (a : α) (f : α → Except Error β) : ((.ok a : Except Error α) >>= f) = f a := rfl

/-! ## Feeding -/

def feed (r : Reader) (ls : List Line) : Except Error Reader := (ls.map Line.event).foldlM Reader.step r

theorem feed_nil (r : Reader) : feed r [] = .ok r := rfl

theorem feed_append (r : Reader) (xs ys : List Line) : feed r (xs ++ ys) = feed r xs >>= fun r => feed r ys := by
  unfold feed
  rw [List.map_append, List.foldlM_append]

theorem feed_cons (r : Reader) (l : Line) (ls : List Line) :
    feed r (l :: ls) = r.step l.event >>= fun r => feed r ls := by
  unfold feed
  rw [List.map_cons, List.foldlM_cons]

/-- A chain of lines goes on from what the first of them left. -/
theorem feed_append_of_ok {r mid : Reader} {xs : List Line} (h : feed r xs = .ok mid) (ys : List Line) :
    feed r (xs ++ ys) = feed mid ys := by
  rw [feed_append, h]
  rfl

theorem feed_single {r : Reader} {l : Line} : feed r [l] = r.step l.event := by
  rw [feed_cons]
  cases r.step l.event <;> rfl

/-- A line enters its name and its attributes. -/
theorem start_eq {l : Line} (plain : l.Plain) (r : Reader) (isEmpty : Bool) :
    r.start isEmpty l.tag = r.enter isEmpty l.name (Dict.ofList l.attributes) := by
  have attributes : attributesOf l.tag = .ok (Dict.ofList l.attributes) := attributesOf_eq plain.keys plain.distinct
  have name : l.tag.localName = l.name := plain.name.localName
  unfold Reader.start
  rw [attributes, name]
  rfl

/-! ## Lines inside a change set -/

variable {r : Reader} {c : ReportedChangeSet}

theorem readItemChange_changeLine (x : ItemChange) :
    readItemChange (Dict.ofList (changeLine x).attributes) = .ok x := by
  obtain ⟨path, item, state, kind⟩ := x
  unfold readItemChange required
  simp only [Dict.get?_ofList, changeLine]
  cases state <;> simp [optional, Dict.lookup_cons_eq, ModificationKind.ofKey?_key, ok_bind]

theorem readFlag_writeFlag {attributes : Dict String} {element key : String} {b : Bool}
    (h : attributes.get? key = some (writeFlag b)) : readFlag attributes element key = .ok b := by
  unfold readFlag
  rw [h]
  cases b <;> rfl

theorem readWorkItem_workItemLine (primary : Bool) (w : WorkItem) :
    readWorkItem (Dict.ofList (workItemLine primary w).attributes) = .ok (w, primary) := by
  have flag : (Dict.ofList (workItemLine primary w).attributes).get? "primary" = some (writeFlag primary) := by
    rw [Dict.get?_ofList]
    rfl
  unfold readWorkItem
  rw [readFlag_writeFlag flag]
  simp [required, Dict.get?_ofList, workItemLine, Dict.lookup_cons_eq, ok_bind]

theorem step_changeLine (open? : r.changeSet = some c) (x : ItemChange) :
    r.step (changeLine x).event = .ok { r with changeSet := some { c with changes := c.changes ++ [x] } } := by
  show r.start true (changeLine x).tag = _
  rw [start_eq (plain_changeLine x)]
  show r.addItemChange _ = _
  unfold Reader.addItemChange
  rw [readItemChange_changeLine]
  simp only [open?]
  rfl

theorem step_workItemLine (open? : r.changeSet = some c) (primary : Bool) (w : WorkItem) :
    r.step (workItemLine primary w).event = .ok { r with changeSet := some (
      if primary && c.workItem.isNone then { c with workItem := some w }
      else { c with otherWorkItems := c.otherWorkItems ++ [w] }) } := by
  show r.start true (workItemLine primary w).tag = _
  rw [start_eq (plain_workItemLine primary w)]
  show r.addWorkItem _ = _
  unfold Reader.addWorkItem
  rw [readWorkItem_workItemLine]
  simp only [open?, ok_bind]
  rfl

theorem feed_changeLines (open? : r.changeSet = some c) (xs : List ItemChange) :
    feed r (xs.map changeLine) = .ok { r with changeSet := some { c with changes := c.changes ++ xs } } := by
  induction xs generalizing r c with
  | nil =>
    rw [List.map_nil, feed_nil, List.append_nil, ← open?]
  | cons x rest ih =>
    rw [List.map_cons, feed_cons, step_changeLine open?, ok_bind, ih rfl, List.append_assoc, List.singleton_append]

theorem feed_otherWorkItems (open? : r.changeSet = some c) (ws : List WorkItem) :
    feed r (ws.map (workItemLine false)) =
      .ok { r with changeSet := some { c with otherWorkItems := c.otherWorkItems ++ ws } } := by
  induction ws generalizing r c with
  | nil =>
    rw [List.map_nil, feed_nil, List.append_nil, ← open?]
  | cons w rest ih =>
    rw [List.map_cons, feed_cons, step_workItemLine open?, ok_bind]
    simp only [Bool.false_and, Bool.false_eq_true, if_false]
    rw [ih rfl, List.append_assoc, List.singleton_append]

def innerLines (c : ReportedChangeSet) : List Line :=
  c.changes.map changeLine ++ c.workItem.toList.map (workItemLine true) ++ c.otherWorkItems.map (workItemLine false)

/-- A change set that begins empty gets all that stands inside it. -/
theorem feed_innerLines {opened : ReportedChangeSet} (open? : r.changeSet = some opened) (bare : opened.changes = [] ∧
    opened.workItem = none ∧ opened.otherWorkItems = []) :
    feed r (innerLines c) = .ok { r with changeSet := some { opened with
      changes := c.changes, workItem := c.workItem, otherWorkItems := c.otherWorkItems } } := by
  obtain ⟨noChanges, noItem, noOthers⟩ := bare
  unfold innerLines
  rw [List.append_assoc, feed_append_of_ok (feed_changeLines open? c.changes), noChanges, List.nil_append]
  cases item : c.workItem with
  | none =>
    rw [Option.toList_none, List.map_nil, List.nil_append, feed_otherWorkItems rfl, ← noItem]
    simp only [noOthers, List.nil_append]
  | some w =>
    rw [Option.toList_some, List.map_singleton, List.singleton_append, feed_cons, step_workItemLine rfl, ok_bind]
    simp only [noItem, Option.isNone_none, Bool.and_self, if_true]
    rw [feed_otherWorkItems rfl]
    simp only [noOthers, List.nil_append]

/-! ## Change sets -/

def Refused {α : Type} (result : Except Error α) : Prop := ∃ fault, result = .error (.malformed fault)

theorem Refused.bind {α β : Type} {x : Except Error α} (h : Refused x) (f : α → Except Error β) : Refused (x >>= f) := by
  obtain ⟨fault, rfl⟩ := h
  exact ⟨fault, rfl⟩

theorem get?_changeSetAttributes (c : ReportedChangeSet) :
    (Dict.ofList (changeSetAttributes c)).get? "itemId" = some c.id ∧
      (Dict.ofList (changeSetAttributes c)).get? "comment" = c.comment ∧
      (Dict.ofList (changeSetAttributes c)).get? "date" = some c.timestamp.text ∧
      (Dict.ofList (changeSetAttributes c)).get? "tooManyChanges" = some (writeFlag c.tooMany) ∧
      (Dict.ofList (changeSetAttributes c)).get? "changeCount" = some (Text.writeNat c.count.toNat) := by
  simp only [Dict.get?_ofList, changeSetAttributes]
  cases c.comment <;> cases c.summary? <;> exact ⟨rfl, rfl, rfl, rfl, rfl⟩

def opened (c : ReportedChangeSet) (component : Component) : ReportedChangeSet :=
  { c with component, changes := [], workItem := none, otherWorkItems := [] }

theorem openChangeSet_eq (inRange : c.timestamp.InRange) (component : Component) :
    openChangeSet (Dict.ofList (changeSetAttributes c)) (some component) = .ok (opened c component) := by
  obtain ⟨id, comment, date, tooMany, count⟩ := get?_changeSetAttributes c
  have small : c.count.toNat < Text.word64 := c.count.toNat_lt
  unfold openChangeSet readCount required
  simp only [id, comment, date, count, ok_bind, readFlag_writeFlag tooMany, Text.readNat?_writeNat small,
    Timestamp.ofText?_text, if_pos inRange, UInt64.ofNat_toNat]
  rfl

theorem openChangeSet_refused (outOfRange : ¬ c.timestamp.InRange) (component : Component) :
    Refused (openChangeSet (Dict.ofList (changeSetAttributes c)) (some component)) := by
  obtain ⟨-, -, date, -, -⟩ := get?_changeSetAttributes c
  unfold openChangeSet required
  simp only [date, ok_bind, Timestamp.ofText?_text, if_neg outOfRange]
  exact ⟨_, rfl⟩

/-! ## Readers inside a section -/

/-- A reader that lists change sets: it has met the root and is in one of the two sections for them. -/
def Lists (r : Reader) : Prop := r.report.isSome ∧ (r.part = .accepted ∨ r.part = .discarded)

def changed (r : Reader) (f : Dict (List ReportedChangeSet) → Dict (List ReportedChangeSet)) : Reader :=
  match r.part with
  | .accepted => { r with report := r.report.map fun report => { report with accepted := f report.accepted } }
  | .discarded => { r with report := r.report.map fun report => { report with discarded := f report.discarded } }
  | _ => r

variable {f g : Dict (List ReportedChangeSet) → Dict (List ReportedChangeSet)}

theorem changeSets_eq (h : Lists r) (f : Dict (List ReportedChangeSet) → Dict (List ReportedChangeSet)) :
    r.changeSets f = .ok (changed r f) := by
  obtain ⟨report, part, component, changeSet⟩ := r
  obtain ⟨met, part | part⟩ := h <;> cases report <;> simp_all [Reader.changeSets, changed]

theorem Lists.changed (h : Lists r) : Lists (changed r f) := by
  obtain ⟨report, part, component, changeSet⟩ := r
  obtain ⟨met, part | part⟩ := h <;> cases report <;> simp_all [ChangeLog.changed, Lists]

theorem changed_changed (h : Lists r) : changed (changed r f) g = changed r (g ∘ f) := by
  obtain ⟨report, part, component, changeSet⟩ := r
  obtain ⟨met, part | part⟩ := h <;> cases report <;> simp_all [changed]

theorem changed_id (h : Lists r) : changed r id = r := by
  obtain ⟨report, part, component, changeSet⟩ := r
  obtain ⟨met, part | part⟩ := h <;> cases report <;> simp_all [changed]

@[simp] theorem changed_component : (changed r f).component = r.component := by
  unfold changed
  split <;> rfl

@[simp] theorem changed_changeSet : (changed r f).changeSet = r.changeSet := by
  unfold changed
  split <;> rfl

def moveTo (component : Option Component) (r : Reader) : Reader := { r with component }

theorem moveTo_changed (component : Option Component) : moveTo component (changed r f) = changed (moveTo component r) f := by
  obtain ⟨report, part, _, changeSet⟩ := r
  cases part <;> rfl

theorem moveTo_self : moveTo r.component r = r := rfl

def settled (component : Component) (c : ReportedChangeSet) : ReportedChangeSet :=
  Reader.settleCount { c with component }

def take (component : Component) (c : ReportedChangeSet) (d : Dict (List ReportedChangeSet)) :
    Dict (List ReportedChangeSet) := d.push component.id (settled component c)

theorem pushChangeSet_eq (h : Lists r) (component : Component) :
    r.pushChangeSet { c with component } = .ok (changed r (take component c)) := changeSets_eq h _

/-- A change set that stands in a component tells the reader all but its component and its count. -/
theorem feed_changeSet (h : Lists r) {component : Component} (inside : r.component = some component)
    (idle : r.changeSet = none) (inRange : c.timestamp.InRange) :
    feed r (changeSetLines c) = .ok (changed r (take component c)) := by
  have enters : ∀ isEmpty, r.enter isEmpty "changeSet" (Dict.ofList (changeSetAttributes c)) =
      if isEmpty then r.pushChangeSet (opened c component)
      else .ok { r with changeSet := some (opened c component) } := by
    intro isEmpty
    show r.openSet isEmpty _ = _
    unfold Reader.openSet
    rw [if_pos h.2, inside, openChangeSet_eq inRange, ok_bind]
    cases isEmpty <;> rfl
  -- a change set without lines inside it is one empty tag, which tells all of it
  have shape : changeSetLines c = element 3 "changeSet" (changeSetAttributes c) (innerLines c) := rfl
  rw [shape, element]
  split
  · next empty =>
    have bare : opened c component = { c with component } := by
      simp only [innerLines, List.isEmpty_iff, List.append_eq_nil_iff, List.map_eq_nil_iff, Option.toList_eq_nil_iff]
        at empty
      obtain ⟨⟨changes, item⟩, others⟩ := empty
      unfold opened
      rw [← changes, ← item, ← others]
    rw [feed_single]
    show r.start true _ = _
    rw [start_eq (plain_changeSet c .empty), enters true, if_pos rfl, bare]
    exact pushChangeSet_eq h component
  · rw [List.cons_append, feed_cons]
    have first : r.step (Line.event ⟨3, .opening, "changeSet", changeSetAttributes c⟩) =
        .ok { r with changeSet := some (opened c component) } := by
      show r.start false _ = _
      rw [start_eq (plain_changeSet c .opening), enters false]
      rfl
    have inner := feed_innerLines (c := c) (r := { r with changeSet := some (opened c component) })
      rfl ⟨rfl, rfl, rfl⟩
    rw [first, ok_bind, feed_append_of_ok inner, feed_single]
    have whole : { r with changeSet := none } = r := by rw [← idle]
    show Reader.pushChangeSet { r with changeSet := none } { c with component } = _
    rw [whole]
    exact pushChangeSet_eq h component

theorem feed_changeSet_refused (h : Lists r) {component : Component} (inside : r.component = some component)
    (outOfRange : ¬ c.timestamp.InRange) : Refused (feed r (changeSetLines c)) := by
  have enters : ∀ isEmpty, Refused (r.enter isEmpty "changeSet" (Dict.ofList (changeSetAttributes c))) := by
    intro isEmpty
    show Refused (r.openSet isEmpty _)
    unfold Reader.openSet
    rw [if_pos h.2, inside]
    exact (openChangeSet_refused outOfRange component).bind _
  have shape : changeSetLines c = element 3 "changeSet" (changeSetAttributes c) (innerLines c) := rfl
  rw [shape, element]
  split
  · rw [feed_single]
    show Refused (r.start true _)
    rw [start_eq (plain_changeSet c .empty)]
    exact enters true
  · rw [List.cons_append, feed_cons]
    refine Refused.bind ?_ _
    show Refused (r.start false _)
    rw [start_eq (plain_changeSet c .opening)]
    exact enters false

end SandboxFetch.ChangeLog
