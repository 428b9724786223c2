/-
  SandboxFetch.Proofs.CommandLine.Json — what is written in JSON and what it is read as.

  Plans and reports are read back from their JSON values, each record, name and tag in them by a lemma of
  its own (`LoadPlan.ofJson_toJson`, `ChangeReport.ofJson_toJson`). The one condition is on the times of a
  report: their years must have dates, as those of four digits do. With what is known of texts
  (`parse_jsonText`) and of job files, all that the program writes in JSON and reads is read back
  (`json_read_back`).
-/

import SandboxFetch.CommandLine.Running
import SandboxFetch.Proofs.ChangeLog.RoundTrip
import SandboxFetch.Proofs.Configuration.Json
import SandboxFetch.Proofs.Steps

namespace SandboxFetch

theorem Path.ofJson_toJson (p : Path) : ofJson p.toJson = .ok p := rfl

theorem Component.ofJson_toJson (c : Component) : ofJson c.toJson = .ok c := by
  refine ok_then (Json.asRecord_object (by simp) (by simp)) ?_
  refine ok_then (Json.Record.required_eq_ok rfl rfl) ?_
  refine ok_then (Json.Record.required_eq_ok rfl rfl) ?_
  rfl

/-! ## Plans -/

theorem LoadScope.ofTaggedJson_toTaggedJson (s : LoadScope) : ofTaggedJson s.toTaggedJson = .ok s := by
  cases s with
  | full => rfl
  | paths selections =>
    refine ok_then (Json.asRecord_object (by simp) (by simp)) ?_
    refine ok_then (Json.Record.required_eq_ok rfl rfl) ?_
    refine ok_then (Json.Record.required_eq_ok rfl (Json.asList_ofTexts selections)) ?_
    rfl

theorem PlanEntry.ofJson_toJson (e : PlanEntry) : ofJson e.toJson = .ok e := by
  refine ok_then (Json.asRecord_object (by simp) (by simp)) ?_
  refine ok_then (Json.Record.required_eq_ok rfl e.component.ofJson_toJson) ?_
  refine ok_then (Json.Record.required_eq_ok rfl e.scope.ofTaggedJson_toTaggedJson) ?_
  refine ok_then (Json.Record.required_eq_ok rfl e.folder.ofJson_toJson) ?_
  rfl

namespace LoadPlan

theorem ofJson_toJson (p : LoadPlan) : ofJson p.toJson = .ok p := by
  refine ok_then (Json.asRecord_object (by simp) (by simp)) ?_
  refine ok_then (Json.Record.required_eq_ok rfl p.root.ofJson_toJson) ?_
  refine ok_then (Json.Record.required_eq_ok rfl (Json.asList_ofList fun e _ => e.ofJson_toJson)) ?_
  rfl

theorem writable_toJson (p : LoadPlan) : Json.Writable p.toJson := by
  have scope (s : LoadScope) : Json.Writable s.toTaggedJson := by
    cases s <;> simp [LoadScope.toTaggedJson]
  simp [toJson, PlanEntry.toJson, Path.toJson, Component.toJson, scope]

end LoadPlan

/-! ## Reports -/

theorem ModificationKind.ofJson_toJson (k : ModificationKind) : ofJson k.toJson = .ok k := by
  cases k <;> rfl

theorem ComponentAction.ofJson_toJson (a : ComponentAction) : ofJson a.toJson = .ok a := by
  cases a <;> rfl

theorem Timestamp.ofJson_toJson {t : Timestamp} (dated : hasYear t.date.year = true) : ofJson t.toJson = .ok t := by
  refine ok_then (a := t.text) rfl ?_
  simp only [ofLooseText?_text dated]
  rfl

theorem Timestamp.hasYear_of_inRange {t : Timestamp} (inRange : t.InRange) : hasYear t.date.year = true := by
  obtain ⟨low, high⟩ := inRange
  simp [hasYear]
  omega

theorem WorkItem.ofJson_toJson (w : WorkItem) : ofJson w.toJson = .ok w := by
  refine ok_then (Json.asRecord_object (by simp) (by simp)) ?_
  refine ok_then (Json.Record.required_eq_ok rfl rfl) ?_
  refine ok_then (Json.Record.required_eq_ok rfl rfl) ?_
  rfl

theorem ItemChange.ofJson_toJson (c : ItemChange) : ofJson c.toJson = .ok c := by
  refine ok_then (Json.asRecord_object (by simp) (by simp)) ?_
  refine ok_then (Json.Record.required_eq_ok rfl rfl) ?_
  refine ok_then (Json.Record.required_eq_ok rfl rfl) ?_
  refine ok_then (Json.Record.optional_eq_ok rfl (Json.asOption_ofText c.state)) ?_
  refine ok_then (Json.Record.required_eq_ok rfl c.kind.ofJson_toJson) ?_
  rfl

theorem ReportedChangeSet.ofJson_toJson {c : ReportedChangeSet} (dated : Timestamp.hasYear c.timestamp.date.year = true) :
    ofJson c.toJson = .ok c := by
  have workItem : Json.asOption WorkItem.ofJson (Json.ofOption WorkItem.toJson c.workItem) = .ok c.workItem :=
    Json.asOption_ofOption (fun w _ => w.ofJson_toJson) (fun _ => Json.noConfusion)
  refine ok_then (Json.asRecord_object (by simp [keys]) (by simp)) ?_
  refine ok_then (Json.Record.required_eq_ok rfl rfl) ?_
  refine ok_then (Json.Record.required_eq_ok rfl rfl) ?_
  refine ok_then (Json.Record.required_eq_ok rfl rfl) ?_
  refine ok_then (Json.Record.optional_eq_ok rfl (Json.asOption_ofText c.comment)) ?_
  refine ok_then (Json.Record.required_eq_ok rfl (Timestamp.ofJson_toJson dated)) ?_
  refine ok_then (Json.Record.required_eq_ok rfl (Json.asList_ofList fun change _ => change.ofJson_toJson)) ?_
  refine ok_then (Json.Record.optional_eq_ok rfl workItem) ?_
  refine ok_then (Json.Record.required_eq_ok rfl (Json.asList_ofList fun w _ => w.ofJson_toJson)) ?_
  refine ok_then (Json.Record.required_eq_ok rfl rfl) ?_
  refine ok_then (Json.Record.required_eq_ok rfl (Json.asNat_ofNat c.count.toNat_lt)) ?_
  show Except.ok { c with count := UInt64.ofNat c.count.toNat } = .ok c
  rw [UInt64.ofNat_toNat]

theorem ComponentChange.ofFlatJson_toFlatJson (c : ComponentChange) : ofFlatJson c.toFlatJson = .ok c := by
  refine ok_then (Json.asRecord_object (by simp) (by simp)) ?_
  refine ok_then (Json.Record.required_eq_ok rfl rfl) ?_
  refine ok_then (Json.Record.required_eq_ok rfl rfl) ?_
  refine ok_then (Json.Record.required_eq_ok rfl c.action.ofJson_toJson) ?_
  rfl

namespace ChangeReport

theorem ofJson_toJson {r : ChangeReport} (dated : ∀ c ∈ r.changeSets, Timestamp.hasYear c.timestamp.date.year = true) :
    ofJson r.toJson = .ok r := by
  obtain ⟨accepted, discarded⟩ := (r.forall_changeSets _).1 dated
  have sets (d : Dict (List ReportedChangeSet))
      (each : ∀ e ∈ d.entries, ∀ c ∈ e.2, Timestamp.hasYear c.timestamp.date.year = true) :
      Json.asDict (Json.asList ReportedChangeSet.ofJson) (Json.ofDict (Json.ofList ReportedChangeSet.toJson) d) = .ok d :=
    Json.asDict_ofDict fun e listed => Json.asList_ofList fun c member =>
      ReportedChangeSet.ofJson_toJson (each e listed c member)
  refine ok_then (Json.asRecord_object (by simp [keys]) (by simp)) ?_
  refine ok_then (Json.Record.required_eq_ok rfl rfl) ?_
  refine ok_then (Json.Record.optional_eq_ok rfl (Json.asOption_ofText r.baselineId)) ?_
  refine ok_then (Json.Record.optional_eq_ok rfl (Json.asOption_ofText r.baselineName)) ?_
  refine ok_then (Json.Record.required_eq_ok rfl rfl) ?_
  refine ok_then (Json.Record.required_eq_ok rfl (Json.asList_ofList fun c _ => c.ofFlatJson_toFlatJson)) ?_
  refine ok_then (Json.Record.required_eq_ok rfl (sets _ accepted)) ?_
  refine ok_then (Json.Record.required_eq_ok rfl (sets _ discarded)) ?_
  rfl

theorem writable_toJson (r : ChangeReport) : Json.Writable r.toJson := by
  have counts (n : UInt64) : (JsonNumber.ofNat n.toNat).HasRoom := n.toNat_lt
  simp [toJson, ComponentChange.toFlatJson, ComponentAction.toJson, ReportedChangeSet.toJson, ItemChange.toJson,
    ModificationKind.toJson, WorkItem.toJson, Timestamp.toJson, Json.ofNat, counts]

end ChangeReport

/-! ## The command line -/

namespace CommandLine

theorem parse_jsonText {v : Json} (writable : Json.Writable v) : Json.parse (jsonText v) = .ok v :=
  Json.parse_toText_append Json.isBlank_pretty writable ['\n'] (by simp [Json.Blank, Json.isSpace])

theorem execute_plan {job : JobFiles} {w w' : Workstation} {output : String}
    (done : (Command.plan job .json).execute w = (.ok output, w')) :
    ∃ r, onJob job .resolvePlan Fetch.resolve w = (.ok r, w') ∧ output = jsonText r.plan.toJson := by
  obtain ⟨r, mid, resolved, printed⟩ := bind_eq_ok.1 done
  have printed : (Except.ok (jsonText r.plan.toJson), mid) = (Except.ok output, w') := printed
  obtain ⟨text, rfl⟩ := Prod.mk.inj printed
  exact ⟨r, resolved, (Except.ok.inj text).symm⟩

theorem execute_showChangeLog {file : Path} {w w' : Workstation} {output : String}
    (done : (Command.showChangeLog file .json).execute w = (.ok output, w')) :
    ∃ report, ChangeLog.ofFile file w.disk = .ok report ∧ output = jsonText report.toJson := by
  obtain ⟨w, mid, here, printed⟩ := bind_eq_ok.1 done
  cases here
  cases read : ChangeLog.ofFile file w.disk with
  | error e =>
    rw [read] at printed
    cases printed
  | ok report =>
    rw [read] at printed
    have printed : (Except.ok (jsonText report.toJson), w) = (Except.ok output, w') := printed
    obtain ⟨text, -⟩ := Prod.mk.inj printed
    exact ⟨report, rfl, (Except.ok.inj text).symm⟩

/-- What is written in JSON is read back as it was: a configuration, in any layout and also where members that
    have their defaults are left out at any level, each plan, and each report whose times have four-digit
    years. The last two are what the command line prints. -/
theorem json_read_back :
    (∀ (c : Configuration) (v : Json), c.Writes v → ∀ layout : Json.Layout, layout.IsBlank →
      Configuration.ofText (Json.toText layout v) = .ok c) ∧
    (∀ p : LoadPlan, (Json.parse (jsonText p.toJson) >>= LoadPlan.ofJson) = .ok p) ∧
    (∀ r : ChangeReport, r.InRange → (Json.parse (jsonText r.toJson) >>= ChangeReport.ofJson) = .ok r) ∧
    (∀ job w w' output, (Command.plan job .json).execute w = (.ok output, w') →
      ∃ r, onJob job .resolvePlan Fetch.resolve w = (.ok r, w') ∧
        (Json.parse output >>= LoadPlan.ofJson) = .ok r.plan) ∧
    ∀ file w w' output, (Command.showChangeLog file .json).execute w = (.ok output, w') →
      ∃ r, ChangeLog.ofFile file w.disk = .ok r ∧
        (r.InRange → (Json.parse output >>= ChangeReport.ofJson) = .ok r) := by
  have plan (p : LoadPlan) : (Json.parse (jsonText p.toJson) >>= LoadPlan.ofJson) = .ok p :=
    ok_then (parse_jsonText p.writable_toJson) p.ofJson_toJson
  have report (r : ChangeReport) (inRange : r.InRange) :
      (Json.parse (jsonText r.toJson) >>= ChangeReport.ofJson) = .ok r := by
    refine ok_then (parse_jsonText r.writable_toJson) (ChangeReport.ofJson_toJson fun c member => ?_)
    exact Timestamp.hasYear_of_inRange (inRange c member)
  refine ⟨?_, plan, report, ?_, ?_⟩
  · intro c v writes layout blank
    exact Configuration.ofText_toText writes blank
  · intro job w w' output done
    obtain ⟨r, resolved, rfl⟩ := execute_plan done
    exact ⟨r, resolved, plan r.plan⟩
  · intro file w w' output done
    obtain ⟨r, read, rfl⟩ := execute_showChangeLog done
    exact ⟨r, read, report r⟩

/-- A report of one change set, with a name that has spaces in its JSON and a comment of two lines. -/
def mayReport : ChangeReport where
  workspace := "_ws"
  baselineId := none
  baselineName := some "ws build #1"
  personal := false
  componentChanges := [⟨⟨"_core", "core"⟩, .add⟩]
  accepted := Dict.ofList [("_core", [{
    id := "_first"
    component := ⟨"_core", "core"⟩
    comment := some "Move a\n\"again\""
    timestamp := noonOfMay
    changes := [⟨"src/a", "_a", some "_a2", .movedAndModified⟩]
    workItem := none
    otherWorkItems := []
    tooMany := false
    count := 1 }])]
  discarded := ∅

/-- A job whose file, rule file and personal build are without every key that has its default, and a report. -/
theorem json_read_back_shortest :
    Configuration.ofText (Json.toText Json.compact (.object [("selection", (Selection.mk .stream "main").toJson),
      ("load_rules", .array [.object [("path", .text "core/rules.xml")]]), ("personal_build", .object [])])) =
    .ok { selection := ⟨.stream, "main"⟩, ruleFiles := [⟨none, "core/rules.xml"⟩], personal := some {} } ∧
    mayReport.InRange ∧ (Json.parse (jsonText mayReport.toJson) >>= ChangeReport.ofJson) = .ok mayReport := by
  have inRange : mayReport.InRange := by
    unfold ChangeReport.InRange
    decide
  refine ⟨json_read_back.1 _ _ ?_ _ Json.isBlank_compact, inRange, json_read_back.2.2.1 mayReport inRange⟩
  -- the job itself, then its rule file, then its personal build
  refine .trans (Json.shortened_filter (fun m => ["selection", "load_rules", "personal_build"].contains m.1) [] _ ?_) ?_
  · simp [Json.ofOption, Json.ofList, Configuration.leeway, List.lookup_cons]
  refine .head (.within [_] [_] rfl (.item [] [] (.leave [] [_] rfl))) ?_
  refine Json.shortened_within [_, _] [] rfl (Json.shortened_filter (fun _ => false) [] _ ?_)
  simp [Json.ofOption, Json.ofDict, PersonalBuild.leeway, List.lookup_cons]
  rfl

end CommandLine

end SandboxFetch
