/-
  SandboxFetch.Proofs.ChangeLog.RoundTrip — what becomes of a report that is written and read.

  A document tells a report but for two things. The change sets that are listed under an id come
  back with that id and with the component name of the first of them, and a count comes back at
  least as large as the list of changes beside it. So what is read is the normal form of what was
  written (`ChangeReport.normal`), and the document is refused when some time has no four-digit year
  (`ofText_text`). A report that was built from an accept is its own normal form when no component
  goes by two names in one list (`normal_ofOutcome`).
-/

import SandboxFetch.Proofs.ChangeLog.Sections
import SandboxFetch.Proofs.Report.Grouping

namespace SandboxFetch

/-! ## Maps -/

namespace Dict

variable {α β : Type}

/-- The map with each value replaced, given its key. -/
def mapEntries (f : String → α → β) (d : Dict α) : Dict β :=
  ⟨d.entries.map fun e => (e.1, f e.1 e.2), by
    rw [List.pairwise_map]
    exact d.sorted⟩

theorem lookup_map (f : String → α → β) (l : List (String × α)) (k : String) :
    (l.map fun e => (e.1, f e.1 e.2)).lookup k = (l.lookup k).map (f k) := by
  induction l with
  | nil => rfl
  | cons e rest ih =>
    obtain ⟨j, v⟩ := e
    rw [List.map_cons, lookup_cons_eq, lookup_cons_eq, ih]
    by_cases h : k = j
    · rw [if_pos h, if_pos h, h]
      rfl
    · rw [if_neg h, if_neg h]

theorem get?_mapEntries (f : String → α → β) (d : Dict α) (k : String) :
    (d.mapEntries f).get? k = (d.get? k).map (f k) := lookup_map f d.entries k

end Dict

/-! ## Normal form -/

namespace ChangeReport

/-- The change sets that are listed under an id, as a document tells them. -/
def normalList (id : ItemId) (sets : List ReportedChangeSet) : List ReportedChangeSet :=
  sets.map fun c => { c with
    component := ⟨id, (sets.head?.map (·.component.name)).getD ""⟩
    count := if c.tooMany then c.count else max c.count (.ofNat c.changes.length) }

/-- A report as a document tells it. -/
def normal (r : ChangeReport) : ChangeReport :=
  { r with accepted := r.accepted.mapEntries normalList, discarded := r.discarded.mapEntries normalList }

def changeSets (r : ChangeReport) : List ReportedChangeSet := r.accepted.values.flatten ++ r.discarded.values.flatten

/-- What holds of all change sets, holds of those that are listed under each id. -/
theorem forall_changeSets (r : ChangeReport) (p : ReportedChangeSet → Prop) : (∀ c ∈ r.changeSets, p c) ↔
    (∀ e ∈ r.accepted.entries, ∀ c ∈ e.2, p c) ∧ ∀ e ∈ r.discarded.entries, ∀ c ∈ e.2, p c := by
  have listed : ∀ sets : Dict (List ReportedChangeSet),
      (∀ c ∈ sets.values.flatten, p c) ↔ ∀ e ∈ sets.entries, ∀ c ∈ e.2, p c := by
    intro sets
    unfold Dict.values
    rw [List.forall_mem_flatten, List.forall_mem_map]
  unfold changeSets
  rw [List.forall_mem_append, listed, listed]

/-- All times have years of four digits. -/
def InRange (r : ChangeReport) : Prop := ∀ c ∈ r.changeSets, c.timestamp.InRange

end ChangeReport

namespace ChangeLog

/-! ## The maps of a report -/

theorem settled_eq (component : Component) (c : ReportedChangeSet) : settled component c = { c with
    component, count := if c.tooMany then c.count else max c.count (.ofNat c.changes.length) } := by
  unfold settled Reader.settleCount
  cases c.tooMany <;> simp

/-- Taking the change sets of a component appends them to its list. -/
theorem get?_takeAll (component : Component) (sets : List ReportedChangeSet) (d : Dict (List ReportedChangeSet))
    (k : String) : (takeAll component sets (d.reserve component.id)).get? k =
      if k = component.id then some ((d.get? component.id).getD [] ++ sets.map (settled component)) else d.get? k := by
  induction sets using List.reverseRecOn generalizing k with
  | nil =>
    show (d.reserve component.id).get? k = _
    rw [Dict.reserve, Dict.get?_update, List.map_nil, List.append_nil]
  | append_singleton sets c ih =>
    have step : takeAll component (sets ++ [c]) (d.reserve component.id) =
        take component c (takeAll component sets (d.reserve component.id)) := by
      unfold takeAll
      rw [List.foldl_append]
      rfl
    rw [step, take, Dict.push, Dict.get?_update, ih k, ih component.id, if_pos rfl]
    by_cases same : k = component.id
    · rw [if_pos same, if_pos same, Option.getD_some, List.map_append, List.map_singleton, List.append_assoc]
    · rw [if_neg same, if_neg same, if_neg same]

theorem get?_takeEntry (e : ItemId × List ReportedChangeSet) (d : Dict (List ReportedChangeSet)) (k : String) :
    (takeEntry e d).get? k =
      if k = e.1 then some ((d.get? e.1).getD [] ++ ChangeReport.normalList e.1 e.2) else d.get? k := by
  have list : e.2.map (settled (componentOf e.1 e.2)) = ChangeReport.normalList e.1 e.2 :=
    List.map_congr_left fun c _ => settled_eq _ c
  rw [← list]
  exact get?_takeAll (componentOf e.1 e.2) e.2 d k

/-- Taking entries in gives the lists at new keys in their normal form, and leaves the others alone. -/
theorem get?_takeEntries {l : List (ItemId × List ReportedChangeSet)} {d : Dict (List ReportedChangeSet)}
    (sorted : l.Pairwise fun a b => a.1 < b.1) (new : ∀ e ∈ l, d.get? e.1 = none) (k : String) :
    (takeEntries l d).get? k = ((l.lookup k).map (ChangeReport.normalList k)).or (d.get? k) := by
  induction l generalizing d with
  | nil => rfl
  | cons e rest ih =>
    obtain ⟨first, others⟩ := List.pairwise_cons.1 sorted
    have later : ∀ x ∈ rest, (takeEntry e d).get? x.1 = none := by
      intro x hx
      have apart : x.1 ≠ e.1 := fun same => String.lt_irrefl x.1 (by simpa [same] using first x hx)
      rw [get?_takeEntry, if_neg apart]
      exact new x (List.mem_cons_of_mem _ hx)
    have head : (e :: rest).lookup k = if k = e.1 then some e.2 else rest.lookup k :=
      Dict.lookup_cons_eq k e.1 e.2 rest
    show (takeEntries rest (takeEntry e d)).get? k = _
    rw [ih others later, get?_takeEntry, head]
    by_cases same : k = e.1
    · have absent : rest.lookup k = none := by
        rw [same]
        exact Dict.lookup_eq_none_of_lt first
      rw [if_pos same, if_pos same, absent, new e List.mem_cons_self, same]
      rfl
    · rw [if_neg same, if_neg same]

/-- Taking all components of a map into an empty one gives its normal form. -/
theorem takeEntries_eq (sets : Dict (List ReportedChangeSet)) :
    takeEntries sets.entries ∅ = sets.mapEntries ChangeReport.normalList := by
  refine Dict.eq_of_get? fun k => ?_
  rw [get?_takeEntries sets.sorted (by simp), Dict.get?_mapEntries, Dict.get?_empty, Option.or_none]
  rfl

/-! ## Documents -/

theorem step_root (report : ChangeReport) : Reader.step {} (Line.event ⟨0, .opening, "changelog", rootAttributes report⟩) =
    .ok (among .outside { ChangeReport.empty report.workspace report.personal with
      baselineId := report.baselineId, baselineName := report.baselineName }) := by
  show Reader.start {} false (Line.tag ⟨0, .opening, "changelog", rootAttributes report⟩) = _
  rw [start_eq (plain_root report .opening)]
  obtain ⟨version, workspace, personal, baselineId, baselineName⟩ :
      (Dict.ofList (rootAttributes report)).get? "version" = some (Text.writeNat formatVersion) ∧
        (Dict.ofList (rootAttributes report)).get? "workspaceItemId" = some report.workspace ∧
        (Dict.ofList (rootAttributes report)).get? "personalBuild" = some (writeFlag report.personal) ∧
        (Dict.ofList (rootAttributes report)).get? "baselineSetItemId" = report.baselineId ∧
        (Dict.ofList (rootAttributes report)).get? "baselineSetName" = report.baselineName := by
    simp only [Dict.get?_ofList, rootAttributes]
    cases report.baselineId <;> cases report.baselineName <;> exact ⟨rfl, rfl, rfl, rfl, rfl⟩
  have read : openReport (Dict.ofList (rootAttributes report)) =
      .ok { ChangeReport.empty report.workspace report.personal with
        baselineId := report.baselineId, baselineName := report.baselineName } := by
    unfold openReport required
    simp only [version, workspace, baselineId, baselineName, readFlag_writeFlag personal, ok_bind,
      Text.readNat?_writeNat (show formatVersion < Text.word32 by decide)]
    rfl
  show (do return { ({} : Reader) with report := some (← openReport _) } : Except Error Reader) = _
  rw [read]
  rfl

def bodyLines (report : ChangeReport) : List Line :=
  element 1 "componentChanges" [] (report.componentChanges.map componentChangeLine) ++
    sectionLines "accepted" report.accepted ++ sectionLines "discarded" report.discarded

theorem lines_eq (report : ChangeReport) : lines report =
    ⟨0, .opening, "changelog", rootAttributes report⟩ :: bodyLines report ++ [⟨0, .closing, "changelog", []⟩] := by
  have some : bodyLines report ≠ [] := by
    unfold bodyLines element
    split <;> simp
  exact element_of_inner some

/-- Reading a document is feeding its lines to a new reader. -/
theorem ofText_text_eq_feed (report : ChangeReport) :
    ofText (text report) = feed {} (lines report) >>= Reader.result := by
  unfold ofText text read
  rw [String.toList_ofList, scan_write]
  rfl

theorem inRange_iff (report : ChangeReport) : report.InRange ↔
    (∀ e ∈ report.accepted.entries, ∀ c ∈ e.2, c.timestamp.InRange) ∧
      ∀ e ∈ report.discarded.entries, ∀ c ∈ e.2, c.timestamp.InRange := report.forall_changeSets _

theorem ofText_text_of_inRange {report : ChangeReport} (inRange : report.InRange) :
    ofText (text report) = .ok report.normal := by
  obtain ⟨accepted, discarded⟩ := (inRange_iff report).1 inRange
  have body := feed_componentChanges { ChangeReport.empty report.workspace report.personal with
    baselineId := report.baselineId, baselineName := report.baselineName } report.componentChanges
  rw [ofText_text_eq_feed, lines_eq, List.cons_append, feed_cons, step_root, ok_bind, bodyLines, List.append_assoc,
    List.append_assoc, feed_append_of_ok body,
    feed_append_of_ok (feed_section (.inl ⟨rfl, rfl⟩) _ accepted),
    feed_append_of_ok (feed_section (.inr ⟨rfl, rfl⟩) _ discarded), feed_single]
  show Except.ok _ = _
  unfold ChangeReport.normal
  rw [← takeEntries_eq, ← takeEntries_eq]
  rfl

theorem ofText_text_refused {report : ChangeReport} (outOfRange : ¬ report.InRange) :
    Refused (ofText (text report)) := by
  rw [inRange_iff] at outOfRange
  have body := feed_componentChanges { ChangeReport.empty report.workspace report.personal with
    baselineId := report.baselineId, baselineName := report.baselineName } report.componentChanges
  rw [ofText_text_eq_feed, lines_eq, List.cons_append, feed_cons, step_root, ok_bind, bodyLines, List.append_assoc,
    List.append_assoc, feed_append_of_ok body]
  refine Refused.bind ?_ _
  by_cases accepted : ∀ e ∈ report.accepted.entries, ∀ c ∈ e.2, c.timestamp.InRange
  · rw [feed_append_of_ok (feed_section (.inl ⟨rfl, rfl⟩) _ accepted), feed_append]
    exact (feed_section_refused (.inr ⟨rfl, rfl⟩) _ fun discarded => outOfRange ⟨accepted, discarded⟩).bind _
  · rw [feed_append]
    exact (feed_section_refused (.inl ⟨rfl, rfl⟩) _ accepted).bind _

/-- No component goes by two names among some change sets. -/
def OneName (sets : List ChangeSet) : Prop :=
  ∀ c ∈ sets, ∀ d ∈ sets, c.component.id = d.component.id → c.component.name = d.component.name

/-- The count of a change set that was reported is that of its changes, listed or not. -/
theorem count_of (c : ChangeSet) : (if (ReportedChangeSet.of c).tooMany then (ReportedChangeSet.of c).count
    else max (ReportedChangeSet.of c).count (.ofNat (ReportedChangeSet.of c).changes.length)) =
      (ReportedChangeSet.of c).count := by
  have twice : ∀ n : UInt64, max n n = n := fun n => ite_self n
  unfold ReportedChangeSet.of
  split
  · rfl
  · next few =>
    simp only [decide_eq_true_eq] at few
    simp only [few, if_false, twice]

/-- Grouped change sets are their own normal form when no component goes by two names. -/
theorem mapEntries_group {sets : List ChangeSet} (oneName : OneName sets) :
    (ChangeReport.group sets).mapEntries ChangeReport.normalList = ChangeReport.group sets := by
  refine Dict.eq_of_get? fun id => ?_
  rw [Dict.get?_mapEntries, ChangeReport.get?_group]
  have list : ChangeReport.normalList id (ChangeReport.reportedOf sets id) = ChangeReport.reportedOf sets id := by
    unfold ChangeReport.normalList ChangeReport.reportedOf
    rw [List.map_map]
    refine List.map_congr_left fun c hc => ?_
    obtain ⟨member, same⟩ := List.mem_filter.1 hc
    have named : (((sets.filter (·.component.id == id)).map ReportedChangeSet.of).head?.map (·.component.name)).getD "" =
        c.component.name := by
      rw [List.head?_map, Option.map_map]
      cases first : (sets.filter (·.component.id == id)).head? with
      | none =>
        rw [List.head?_eq_none_iff] at first
        rw [first] at hc
        cases hc
      | some d =>
        obtain ⟨member', same'⟩ := List.mem_filter.1 (List.mem_of_head? first)
        exact oneName d member' c member ((eq_of_beq same').trans (eq_of_beq same).symm)
    have component : (⟨id, c.component.name⟩ : Component) = (ReportedChangeSet.of c).component := by
      show _ = c.component
      rw [← eq_of_beq same]
    simp only [Function.comp, named, count_of, component]
  unfold Dict.listAt
  split
  · rfl
  · rw [Option.map_some, list]

theorem normal_ofOutcome {outcome : AcceptOutcome} (accepted : OneName outcome.accepted)
    (discarded : OneName outcome.discarded) (workspace : ItemId) (personal : Bool) :
    (ChangeReport.ofOutcome workspace outcome personal).normal = ChangeReport.ofOutcome workspace outcome personal := by
  unfold ChangeReport.ofOutcome
  split
  · rfl
  · unfold ChangeReport.normal
    simp only [mapEntries_group accepted, mapEntries_group discarded]

/-- What is read from the document of a report is its normal form, provided that its times have
    four-digit years; else the document is refused. So a report comes back as it was just when its
    times are in range and it is its own normal form, as the report of an accept is when no component
    goes by two names in one list. -/
theorem ofText_text (report : ChangeReport) :
    (report.InRange → ofText (text report) = .ok report.normal) ∧
    (¬ report.InRange → Refused (ofText (text report))) ∧
    (ofText (text report) = .ok report ↔ report.InRange ∧ report.normal = report) ∧
    ∀ workspace outcome personal, report = ChangeReport.ofOutcome workspace outcome personal →
      report.InRange → OneName outcome.accepted → OneName outcome.discarded →
        ofText (text report) = .ok report := by
  refine ⟨ofText_text_of_inRange, ofText_text_refused, ⟨fun back => ?_, ?_⟩, ?_⟩
  · by_cases inRange : report.InRange
    · rw [ofText_text_of_inRange inRange] at back
      exact ⟨inRange, Except.ok.inj back⟩
    · obtain ⟨fault, refused⟩ := ofText_text_refused inRange
      rw [refused] at back
      cases back
  · rintro ⟨inRange, same⟩
    rw [ofText_text_of_inRange inRange, same]
  · rintro workspace outcome personal rfl inRange accepted discarded
    rw [ofText_text_of_inRange inRange, normal_ofOutcome accepted discarded]

end ChangeLog

end SandboxFetch
