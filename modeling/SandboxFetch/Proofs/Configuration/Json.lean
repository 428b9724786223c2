/-
  SandboxFetch.Proofs.Configuration.Json — job files that are written and read.

  A configuration is read back from its JSON value (`Configuration.ofJson_toJson`), and it still is when
  keys are left out that have their defaults, be it in the configuration, in one of its rule files or in
  its personal build (`Configuration.retains_ofJson`). So it is read back from the text of any such value
  (`Configuration.ofText_toText`).
-/

import SandboxFetch.Configuration.Json
import SandboxFetch.Proofs.Json.Shortening

namespace SandboxFetch

open Json (Retains Leeway Shortened AtItem)

variable {v v' : Json}

theorem Selection.ofJson_toJson (s : Selection) : ofJson s.toJson = .ok s := by
  obtain ⟨kind, name⟩ := s
  cases kind <;> rfl

theorem LoadPolicy.ofJson_toJson (p : LoadPolicy) : ofJson p.toJson = .ok p := by
  cases p <;> rfl

theorem ComponentPolicy.ofJson_toJson (p : ComponentPolicy) : ofJson p.toJson = .ok p := by
  cases p <;> rfl

/-! ## Rule files -/

namespace RuleFileSpec

theorem ofJson_toJson (s : RuleFileSpec) : ofJson s.toJson = .ok s := by
  refine ok_then (Json.asRecord_object (by simp) (by simp)) ?_
  refine ok_then (Json.Record.withDefault_eq_ok rfl (Json.asOption_ofText s.component)) ?_
  refine ok_then (Json.Record.required_eq_ok rfl rfl) ?_
  rfl

def leeway : Leeway where
  optional := [("component", .null)]
  within := []

theorem retains_ofJson (shortened : Shortened leeway v v') : Retains (ofJson v) (ofJson v') := by
  refine Json.retains_record (by simp [leeway]) (by simp [leeway]) shortened fun shorter => ?_
  refine .bind (shorter.withDefault rfl rfl rfl) fun component => ?_
  exact .bind (shorter.required rfl rfl) fun path => .refl _

end RuleFileSpec

/-! ## Personal builds -/

namespace PersonalBuild

theorem ofJson_toJson (p : PersonalBuild) : ofJson p.toJson = .ok p := by
  have ruleFiles : Json.asOption (Json.asList RuleFileSpec.ofJson)
      (Json.ofOption (Json.ofList RuleFileSpec.toJson) p.ruleFiles) = .ok p.ruleFiles :=
    Json.asOption_ofOption (fun _ _ => Json.asList_ofList fun s _ => s.ofJson_toJson) (fun _ => Json.noConfusion)
  have properties : Json.asDict Json.asText (Json.ofDict .text p.properties) = .ok p.properties :=
    Json.asDict_ofDict fun _ _ => rfl
  refine ok_then (Json.asRecord_object (by simp) (by simp)) ?_
  refine ok_then (Json.Record.withDefault_eq_ok rfl (Json.asOption_ofText p.workspace)) ?_
  refine ok_then (Json.Record.withDefault_eq_ok rfl ruleFiles) ?_
  refine ok_then (Json.Record.withDefault_eq_ok rfl properties) ?_
  rfl

def leeway : Leeway where
  optional := [("workspace", .null), ("load_rules", .null), ("build_properties", .object [])]
  within := [("load_rules", AtItem (Shortened RuleFileSpec.leeway))]

theorem retains_ofJson (shortened : Shortened leeway v v') : Retains (ofJson v) (ofJson v') := by
  refine Json.retains_record (by simp [leeway]) (by simp [leeway]) shortened fun shorter => ?_
  refine .bind (shorter.withDefault rfl rfl rfl) fun workspace => ?_
  refine .bind (shorter.withDefault_within rfl rfl rfl fun changed => ?_) fun ruleFiles => ?_
  · exact Json.retains_asOption changed.ne_null (Json.retains_asList RuleFileSpec.retains_ofJson changed)
  exact .bind (shorter.withDefault rfl rfl rfl) fun properties => .refl _

end PersonalBuild

/-! ## Configurations -/

namespace Configuration

theorem ofJson_toJson (c : Configuration) : ofJson c.toJson = .ok c := by
  have policy : Json.asOption LoadPolicy.ofJson (Json.ofOption LoadPolicy.toJson c.policy) = .ok c.policy :=
    Json.asOption_ofOption (fun p _ => p.ofJson_toJson) (fun _ => Json.noConfusion)
  have componentPolicy : Json.asOption ComponentPolicy.ofJson (Json.ofOption ComponentPolicy.toJson c.componentPolicy) =
      .ok c.componentPolicy := Json.asOption_ofOption (fun p _ => p.ofJson_toJson) (fun _ => Json.noConfusion)
  have ruleFiles : Json.asList RuleFileSpec.ofJson (Json.ofList RuleFileSpec.toJson c.ruleFiles) = .ok c.ruleFiles :=
    Json.asList_ofList fun s _ => s.ofJson_toJson
  have personal : Json.asOption PersonalBuild.ofJson (Json.ofOption PersonalBuild.toJson c.personal) = .ok c.personal :=
    Json.asOption_ofOption (fun p _ => p.ofJson_toJson) (fun _ => Json.noConfusion)
  refine ok_then (Json.asRecord_object (by simp [keys]) (by simp)) ?_
  refine ok_then (Json.Record.required_eq_ok rfl c.selection.ofJson_toJson) ?_
  refine ok_then (Json.Record.withDefault_eq_ok rfl rfl) ?_
  refine ok_then (Json.Record.withDefault_eq_ok rfl rfl) ?_
  refine ok_then (Json.Record.withDefault_eq_ok rfl rfl) ?_
  refine ok_then (Json.Record.withDefault_eq_ok rfl rfl) ?_
  refine ok_then (Json.Record.withDefault_eq_ok rfl policy) ?_
  refine ok_then (Json.Record.withDefault_eq_ok rfl componentPolicy) ?_
  refine ok_then (Json.Record.withDefault_eq_ok rfl (Json.asList_ofTexts c.excludedNames)) ?_
  refine ok_then (Json.Record.withDefault_eq_ok rfl (Json.asList_ofTexts c.listedNames)) ?_
  refine ok_then (Json.Record.withDefault_eq_ok rfl rfl) ?_
  refine ok_then (Json.Record.withDefault_eq_ok rfl ruleFiles) ?_
  refine ok_then (Json.Record.withDefault_eq_ok rfl personal) ?_
  rfl

/-- Every key but the selection may be left out where it has its default, and something may be left out of
    the rule files and of the personal build. -/
def leeway : Leeway where
  optional := [("fetch_destination", .text "."), ("delete_before_fetch", .bool false), ("accept_before_fetch", .bool true),
    ("create_folders_for_components", .bool false), ("load_policy", .null), ("component_load_config", .null),
    ("components_to_exclude", .array []), ("load_components", .array []), ("include_components", .bool false),
    ("load_rules", .array []), ("personal_build", .null)]
  within := [("load_rules", AtItem (Shortened RuleFileSpec.leeway)), ("personal_build", Shortened PersonalBuild.leeway)]

/-- What a job file says, it says where a default is left out. -/
theorem retains_ofJson (shortened : Shortened leeway v v') : Retains (ofJson v) (ofJson v') := by
  refine Json.retains_record (by simp [leeway, keys]) (by simp [leeway, keys]) shortened fun shorter => ?_
  refine .bind (shorter.required rfl rfl) fun selection => ?_
  refine .bind (shorter.withDefault rfl rfl rfl) fun destination => ?_
  refine .bind (shorter.withDefault rfl rfl rfl) fun deleteFirst => ?_
  refine .bind (shorter.withDefault rfl rfl rfl) fun acceptFirst => ?_
  refine .bind (shorter.withDefault rfl rfl rfl) fun componentFolders => ?_
  refine .bind (shorter.withDefault rfl rfl rfl) fun policy => ?_
  refine .bind (shorter.withDefault rfl rfl rfl) fun componentPolicy => ?_
  refine .bind (shorter.withDefault rfl rfl rfl) fun excludedNames => ?_
  refine .bind (shorter.withDefault rfl rfl rfl) fun listedNames => ?_
  refine .bind (shorter.withDefault rfl rfl rfl) fun listIncludes => ?_
  refine .bind (shorter.withDefault_within rfl rfl rfl fun changed => ?_) fun ruleFiles => ?_
  · exact Json.retains_asList RuleFileSpec.retains_ofJson changed
  refine .bind (shorter.withDefault_within rfl rfl rfl fun changed => ?_) fun personal => .refl _
  exact Json.retains_asOption changed.ne_null (PersonalBuild.retains_ofJson changed)

theorem writable_of_shortened (shortened : Shortened leeway v v') (writable : Json.Writable v) : Json.Writable v' := by
  have ruleFile : ∀ w w', Shortened RuleFileSpec.leeway w w' → Json.Writable w → Json.Writable w' :=
    fun _ _ changed => Json.writable_of_shortened changed (by simp [RuleFileSpec.leeway])
  have ruleFiles : ∀ w w', AtItem (Shortened RuleFileSpec.leeway) w w' → Json.Writable w → Json.Writable w' :=
    fun _ _ changed => Json.writable_of_atItem changed (ruleFile _ _)
  have personal : ∀ w w', Shortened PersonalBuild.leeway w w' → Json.Writable w → Json.Writable w' :=
    fun _ _ changed => Json.writable_of_shortened changed (by simpa [PersonalBuild.leeway] using ruleFiles)
  exact Json.writable_of_shortened shortened (by simpa [leeway] using ⟨ruleFiles, personal⟩) writable

theorem writable_toJson (c : Configuration) : Json.Writable c.toJson := by
  simp [toJson, Selection.toJson, LoadPolicy.toJson, ComponentPolicy.toJson, RuleFileSpec.toJson, PersonalBuild.toJson]

/-- A value that a configuration may be written as: its own, or one of which defaults are left out. -/
def Writes (c : Configuration) : Json → Prop := Relation.ReflTransGen (Shortened leeway) c.toJson

theorem ofJson_of_writes {c : Configuration} (writes : c.Writes v) : ofJson v = .ok c := by
  induction writes with
  | refl => exact c.ofJson_toJson
  | tail _ last ih => exact retains_ofJson last c ih

theorem writable_of_writes {c : Configuration} (writes : c.Writes v) : Json.Writable v := by
  induction writes with
  | refl => exact c.writable_toJson
  | tail _ last ih => exact writable_of_shortened last ih

/-- A configuration is read back from the text of any value that it may be written as. -/
theorem ofText_toText {c : Configuration} (writes : c.Writes v) {layout : Json.Layout} (blank : layout.IsBlank) :
    ofText (Json.toText layout v) = .ok c := by
  refine ok_then (Json.parse_toText blank (writable_of_writes writes)) ?_
  exact ofJson_of_writes writes

end Configuration

end SandboxFetch
