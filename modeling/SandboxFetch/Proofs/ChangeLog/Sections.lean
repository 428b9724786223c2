/-
  SandboxFetch.Proofs.ChangeLog.Sections — what the sections of a change log tell their reader.

  The sections for accepted and discarded change sets are read by one set of laws, over the map that
  the reader fills (`changed`, `listed`). A component element makes a place for its change sets and takes
  them in order (`takeEntry`); a section takes its components in order (`feed_section`). When some
  change set cannot be read back, the section is refused, whatever stands before it
  (`feed_section_refused`).
-/

import SandboxFetch.Proofs.ChangeLog.Elements

namespace SandboxFetch

namespace ChangeLog

variable {r : Reader}

/-! ## Components -/

def takeAll (component : Component) (sets : List ReportedChangeSet) (d : Dict (List ReportedChangeSet)) :
    Dict (List ReportedChangeSet) := sets.foldl (fun d c => take component c d) d

theorem feed_changeSets (h : Lists r) {component : Component} (inside : r.component = some component)
    (idle : r.changeSet = none) {sets : List ReportedChangeSet} (inRange : ∀ c ∈ sets, c.timestamp.InRange) :
    feed r (sets.flatMap changeSetLines) = .ok (changed r (takeAll component sets)) := by
  induction sets generalizing r with
  | nil => rw [List.flatMap_nil, feed_nil, show takeAll component [] = id from rfl, changed_id h]
  | cons c rest ih =>
    have first := feed_changeSet h inside idle (inRange c List.mem_cons_self)
    have others := ih (r := changed r (take component c)) h.changed (changed_component.trans inside)
      (changed_changeSet.trans idle) fun d hd => inRange d (List.mem_cons_of_mem _ hd)
    rw [List.flatMap_cons, feed_append_of_ok first, others, changed_changed h]
    rfl

theorem feed_changeSets_refused (h : Lists r) {component : Component} (inside : r.component = some component)
    (idle : r.changeSet = none) {sets : List ReportedChangeSet} (outOfRange : ¬ ∀ c ∈ sets, c.timestamp.InRange) :
    Refused (feed r (sets.flatMap changeSetLines)) := by
  induction sets generalizing r with
  | nil => exact absurd (by simp) outOfRange
  | cons c rest ih =>
    rw [List.flatMap_cons]
    by_cases first : c.timestamp.InRange
    · rw [feed_append_of_ok (feed_changeSet h inside idle first)]
      refine ih h.changed (changed_component.trans inside) (changed_changeSet.trans idle) fun others => outOfRange ?_
      intro d hd
      rcases List.mem_cons.1 hd with rfl | hd
      · exact first
      · exact others d hd
    · rw [feed_append]
      exact (feed_changeSet_refused h inside first).bind _

def componentOf (id : ItemId) (sets : List ReportedChangeSet) : Component :=
  ⟨id, (sets.head?.map (·.component.name)).getD ""⟩

theorem componentLines_eq (id : ItemId) (sets : List ReportedChangeSet) : componentLines id sets =
    ⟨2, .opening, "component", [("itemId", id), ("name", (componentOf id sets).name)]⟩ ::
      sets.flatMap changeSetLines ++ [⟨2, .closing, "component", []⟩] := rfl

/-- Takes the change sets of a component, and a place for them when there are none. -/
def takeEntry (e : ItemId × List ReportedChangeSet) (d : Dict (List ReportedChangeSet)) :
    Dict (List ReportedChangeSet) := takeAll (componentOf e.1 e.2) e.2 (d.reserve e.1)

theorem step_component (h : Lists r) (id : ItemId) (name : String) :
    r.step (Line.event ⟨2, .opening, "component", [("itemId", id), ("name", name)]⟩) =
      .ok (moveTo (some ⟨id, name⟩) (changed r (·.reserve id))) := by
  have known : (Dict.ofList [("itemId", id), ("name", name)]).get? "itemId" = some id ∧
      (Dict.ofList [("itemId", id), ("name", name)]).get? "name" = some name := by
    simp only [Dict.get?_ofList]
    exact ⟨rfl, rfl⟩
  show r.start false _ = _
  rw [start_eq (plain_component id name .opening)]
  show r.component? false _ = _
  unfold Reader.component? required
  rcases h.2 with part | part <;> simp only [part, known, ok_bind, changeSets_eq h] <;> rfl

theorem feed_component (h : Lists r) (outside : r.component = none) (idle : r.changeSet = none)
    {e : ItemId × List ReportedChangeSet} (inRange : ∀ c ∈ e.2, c.timestamp.InRange) :
    feed r (componentLines e.1 e.2) = .ok (changed r (takeEntry e)) := by
  obtain ⟨id, sets⟩ := e
  have ready : Lists (moveTo (some (componentOf id sets)) (changed r (·.reserve id))) := h.changed
  have inner := feed_changeSets ready rfl (changed_changeSet.trans idle) inRange
  rw [componentLines_eq, List.cons_append, feed_cons, step_component h, ok_bind]
  show feed (moveTo (some (componentOf id sets)) (changed r (·.reserve id))) _ = _
  rw [feed_append_of_ok inner, feed_single]
  show Except.ok (moveTo none (changed (moveTo _ (changed r (·.reserve id))) _)) = _
  have closed : moveTo none (changed r (·.reserve id)) = changed r (·.reserve id) := by
    rw [moveTo_changed, ← outside, moveTo_self]
  rw [moveTo_changed]
  show Except.ok (changed (moveTo none (changed r (·.reserve id))) _) = _
  rw [closed, changed_changed h]
  rfl

theorem feed_component_refused (h : Lists r) (idle : r.changeSet = none) {e : ItemId × List ReportedChangeSet}
    (outOfRange : ¬ ∀ c ∈ e.2, c.timestamp.InRange) : Refused (feed r (componentLines e.1 e.2)) := by
  obtain ⟨id, sets⟩ := e
  have ready : Lists (moveTo (some (componentOf id sets)) (changed r (·.reserve id))) := h.changed
  rw [componentLines_eq, List.cons_append, feed_cons, step_component h, ok_bind, feed_append]
  exact (feed_changeSets_refused ready rfl (changed_changeSet.trans idle) outOfRange).bind _

def takeEntries (entries : List (ItemId × List ReportedChangeSet)) (d : Dict (List ReportedChangeSet)) :
    Dict (List ReportedChangeSet) := entries.foldl (fun d e => takeEntry e d) d

theorem feed_components (h : Lists r) (outside : r.component = none) (idle : r.changeSet = none)
    {entries : List (ItemId × List ReportedChangeSet)} (inRange : ∀ e ∈ entries, ∀ c ∈ e.2, c.timestamp.InRange) :
    feed r (entries.flatMap fun e => componentLines e.1 e.2) = .ok (changed r (takeEntries entries)) := by
  induction entries generalizing r with
  | nil => rw [List.flatMap_nil, feed_nil, show takeEntries [] = id from rfl, changed_id h]
  | cons e rest ih =>
    have first := feed_component h outside idle (inRange e List.mem_cons_self)
    have others := ih (r := changed r (takeEntry e)) h.changed (changed_component.trans outside) (changed_changeSet.trans idle)
      fun d hd => inRange d (List.mem_cons_of_mem _ hd)
    rw [List.flatMap_cons, feed_append_of_ok first, others, changed_changed h]
    rfl

theorem feed_components_refused (h : Lists r) (outside : r.component = none) (idle : r.changeSet = none)
    {entries : List (ItemId × List ReportedChangeSet)} (outOfRange : ¬ ∀ e ∈ entries, ∀ c ∈ e.2, c.timestamp.InRange) :
    Refused (feed r (entries.flatMap fun e => componentLines e.1 e.2)) := by
  induction entries generalizing r with
  | nil => exact absurd (by simp) outOfRange
  | cons e rest ih =>
    rw [List.flatMap_cons]
    by_cases first : ∀ c ∈ e.2, c.timestamp.InRange
    · rw [feed_append_of_ok (feed_component h outside idle first)]
      refine ih h.changed (changed_component.trans outside) (changed_changeSet.trans idle) fun others => outOfRange ?_
      intro d hd
      rcases List.mem_cons.1 hd with rfl | hd
      · exact first
      · exact others d hd
    · rw [feed_append]
      exact (feed_component_refused h idle first).bind _

/-! ## Sections -/

/-- A reader in a part of the document and in no element there, with what it has of the report. -/
def among (part : Section) (report : ChangeReport) : Reader := ⟨some report, part, none, none⟩

def listed (part : Section) (f : Dict (List ReportedChangeSet) → Dict (List ReportedChangeSet))
    (report : ChangeReport) : ChangeReport :=
  match part with
  | .accepted => { report with accepted := f report.accepted }
  | .discarded => { report with discarded := f report.discarded }
  | _ => report

theorem changed_among (part : Section) (f : Dict (List ReportedChangeSet) → Dict (List ReportedChangeSet))
    (report : ChangeReport) : changed (among part report) f = among part (listed part f report) := by
  cases part <;> rfl

def IsListing (name : String) (part : Section) : Prop :=
  (name = "accepted" ∧ part = .accepted) ∨ (name = "discarded" ∧ part = .discarded)

variable {name : String} {part : Section}

theorem IsListing.word (h : IsListing name part) : IsWord name.toList := by
  rcases h with ⟨rfl, -⟩ | ⟨rfl, -⟩ <;> decide

theorem IsListing.lists (h : IsListing name part) (report : ChangeReport) : Lists (among part report) := by
  rcases h with ⟨-, rfl⟩ | ⟨-, rfl⟩
  · exact ⟨rfl, .inl rfl⟩
  · exact ⟨rfl, .inr rfl⟩

/-- A section begins at its opening tag, and an empty tag begins none. -/
theorem IsListing.enter (h : IsListing name part) (report : ChangeReport) (isEmpty : Bool) :
    (among .outside report).start isEmpty (Line.tag ⟨1, .opening, name, []⟩) =
      .ok (among (if isEmpty then .outside else part) report) := by
  rw [start_eq (plain_section h.word .opening)]
  rcases h with ⟨rfl, rfl⟩ | ⟨rfl, rfl⟩ <;> cases isEmpty <;> rfl

theorem IsListing.leave (h : IsListing name part) (report : ChangeReport) :
    (among part report).step (Line.event ⟨1, .closing, name, []⟩) = .ok (among .outside report) := by
  rcases h with ⟨rfl, rfl⟩ | ⟨rfl, rfl⟩ <;> rfl

/-- A section without lines lists no component. -/
theorem entries_eq_nil {sets : Dict (List ReportedChangeSet)}
    (empty : sets.toList.flatMap (fun e => componentLines e.1 e.2) = []) : sets.entries = [] := by
  unfold Dict.toList at empty
  cases entries : sets.entries with
  | nil => rfl
  | cons e rest =>
    rw [entries] at empty
    exact absurd empty (by simp [componentLines])

theorem feed_section (h : IsListing name part) (report : ChangeReport) {sets : Dict (List ReportedChangeSet)}
    (inRange : ∀ e ∈ sets.entries, ∀ c ∈ e.2, c.timestamp.InRange) :
    feed (among .outside report) (sectionLines name sets) =
      .ok (among .outside (listed part (takeEntries sets.entries) report)) := by
  unfold sectionLines element
  split
  · next empty =>
    have bare : sets.entries = [] := entries_eq_nil (List.isEmpty_iff.1 empty)
    have same : listed part (takeEntries []) report = report := by cases part <;> rfl
    rw [feed_single, bare, same]
    exact h.enter report true
  · have begins : (among .outside report).step (Line.event ⟨1, .opening, name, []⟩) = .ok (among part report) :=
      h.enter report false
    have inner := feed_components (h.lists report) rfl rfl inRange
    rw [changed_among] at inner
    rw [List.cons_append, feed_cons, begins, ok_bind]
    exact (feed_append_of_ok inner _).trans (feed_single.trans (h.leave _))

theorem feed_section_refused (h : IsListing name part) (report : ChangeReport)
    {sets : Dict (List ReportedChangeSet)} (outOfRange : ¬ ∀ e ∈ sets.entries, ∀ c ∈ e.2, c.timestamp.InRange) :
    Refused (feed (among .outside report) (sectionLines name sets)) := by
  have begins : (among .outside report).step (Line.event ⟨1, .opening, name, []⟩) = .ok (among part report) :=
    h.enter report false
  have inner := feed_components_refused (h.lists report) rfl rfl outOfRange
  have full : sets.toList.flatMap (fun e => componentLines e.1 e.2) ≠ [] := by
    intro empty
    have bare : sets.entries = [] := entries_eq_nil empty
    exact outOfRange (by simp [bare])
  rw [sectionLines, element_of_inner full, List.cons_append, feed_cons, begins, ok_bind, feed_append]
  exact inner.bind _

theorem step_componentChange (report : ChangeReport) (x : ComponentChange) :
    (among .componentChanges report).step (componentChangeLine x).event =
      .ok (among .componentChanges { report with componentChanges := report.componentChanges ++ [x] }) := by
  show (among .componentChanges report).start true (componentChangeLine x).tag = _
  rw [start_eq (plain_componentChangeLine x)]
  show (among .componentChanges report).component? true _ = _
  obtain ⟨⟨id, name⟩, action⟩ := x
  have read : readComponentChange (Dict.ofList (componentChangeLine ⟨⟨id, name⟩, action⟩).attributes) =
      .ok ⟨⟨id, name⟩, action⟩ := by
    unfold readComponentChange required
    simp only [Dict.get?_ofList]
    cases action <;> rfl
  unfold Reader.component?
  rw [show (among .componentChanges report).part = .componentChanges from rfl]
  simp only [read, ok_bind]
  rfl

theorem feed_componentChangeLines (report : ChangeReport) (changes : List ComponentChange) :
    feed (among .componentChanges report) (changes.map componentChangeLine) =
      .ok (among .componentChanges { report with componentChanges := report.componentChanges ++ changes }) := by
  induction changes generalizing report with
  | nil => rw [List.map_nil, feed_nil, List.append_nil]
  | cons x rest ih =>
    rw [List.map_cons, feed_cons, step_componentChange, ok_bind, ih, List.append_assoc, List.singleton_append]

/-- The components that joined or left come back in order. -/
theorem feed_componentChanges (report : ChangeReport) (changes : List ComponentChange) :
    feed (among .outside report) (element 1 "componentChanges" [] (changes.map componentChangeLine)) =
      .ok (among .outside { report with componentChanges := report.componentChanges ++ changes }) := by
  have word : IsWord "componentChanges".toList := by decide
  unfold element
  split
  · next empty =>
    obtain rfl : changes = [] := by simpa using empty
    rw [feed_single, List.append_nil]
    show (among .outside report).start true (Line.tag ⟨1, .empty, "componentChanges", []⟩) = _
    rw [start_eq (plain_section word .empty)]
    rfl
  · have begins : (among .outside report).step (Line.event ⟨1, .opening, "componentChanges", []⟩) =
        .ok (among .componentChanges report) := by
      show (among .outside report).start false (Line.tag ⟨1, .opening, "componentChanges", []⟩) = _
      rw [start_eq (plain_section word .opening)]
      rfl
    rw [List.cons_append, feed_cons, begins, ok_bind]
    exact (feed_append_of_ok (feed_componentChangeLines report changes) _).trans feed_single

end ChangeLog

end SandboxFetch
