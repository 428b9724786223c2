/-
  SandboxFetch.Proofs.Fetch.Gating — which load rules a policy lets through.

  The policy `loadRules` asks for one XML file at most and for a new enough server, and is checked in
  two parts, before the files are read and after. The parts together decide as one check with the
  actual version does (`checks_iff`), and they do so in a fixed order: the number of files, the
  version, what is wrong with reading the file, its format. Under every other policy the files are
  read in their order, and nothing else can be wrong (`readReference_gates`).
-/

import SandboxFetch.Proofs.Fetch.Stages

namespace SandboxFetch

variable {policy : Option LoadPolicy} {count : Nat} {version : ServerVersion} {supports : Bool} {files : List RuleFile}
  {file : RuleFile}

/-! ## Checks -/

theorem ServerVersion.supportsRuleOnlyLoads_iff :
    version.supportsRuleOnlyLoads = true ↔ compare version ruleOnlyMinimum ≠ .lt := by
  unfold supportsRuleOnlyLoads
  cases compare version ruleOnlyMinimum <;> decide

namespace LoadRule

abbrev Gated (policy : Option LoadPolicy) : Prop := policy = some .loadRules

theorem checkBeforeReading_of_free (free : ¬ Gated policy) : checkBeforeReading policy count version = .ok () := by
  unfold checkBeforeReading
  rw [if_neg free]
  rfl

theorem checkBeforeReading_gated : checkBeforeReading (some .loadRules) count version =
    if 1 < count then .error (.severalRuleFiles count)
    else if version.supportsRuleOnlyLoads then .ok ()
    else .error (.serverTooOld ServerVersion.ruleOnlyMinimum.text version.text) := by
  unfold checkBeforeReading
  rw [if_pos rfl]
  by_cases several : 1 < count
  · rw [if_pos several, if_pos several]
    rfl
  · rw [if_neg several, if_neg several]
    cases version.supportsRuleOnlyLoads <;> rfl

theorem checkBeforeReading_iff : checkBeforeReading policy count version = .ok () ↔
    (Gated policy → count ≤ 1 ∧ version.supportsRuleOnlyLoads = true) := by
  by_cases gated : Gated policy
  · rw [gated, checkBeforeReading_gated]
    by_cases several : 1 < count
    · simp [several, Nat.not_le.2 several]
    · cases version.supportsRuleOnlyLoads <;> simp [several, Nat.not_lt.1 several]
  · simp [checkBeforeReading_of_free gated, gated]

theorem checkReference_of_free (free : ¬ Gated policy) (reference : Option RuleReference) :
    checkReference policy reference supports = .ok () := by
  unfold checkReference
  rw [if_neg free]
  rfl

theorem checkReference_none : checkReference (some .loadRules) (RuleReference.classify? []) supports =
    if supports then .ok () else .error (.serverTooOld ServerVersion.ruleOnlyMinimum.text "") := by
  cases supports <;> rfl

theorem checkReference_one : checkReference (some .loadRules) (RuleReference.classify? [file]) supports =
    if file.format = .xml then
      if supports then .ok () else .error (.serverTooOld ServerVersion.ruleOnlyMinimum.text "")
    else .error (.rulesNotXml file.spec.text) := by
  obtain ⟨spec, owner, format, content⟩ := file
  cases format <;> cases supports <;> rfl

theorem checkReference_several (several : 1 < files.length) :
    checkReference (some .loadRules) (RuleReference.classify? files) supports =
      .error (.severalRuleFiles files.length) := by
  match files, several with
  | _ :: _ :: _, _ => rfl

/-- Under the policy the whole check wants a new enough server, and no file or one in XML. -/
theorem checkReference_iff : checkReference policy (RuleReference.classify? files) supports = .ok () ↔
    (Gated policy → supports = true ∧ (files = [] ∨ ∃ file, files = [file] ∧ file.format = .xml)) := by
  by_cases gated : Gated policy
  · rw [gated]
    match files with
    | [] =>
      rw [checkReference_none]
      cases supports <;> simp
    | [file] =>
      rw [checkReference_one]
      cases supports <;> by_cases markup : file.format = .xml <;> simp [markup]
    | _ :: _ :: _ =>
      rw [checkReference_several (by simp)]
      simp
  · simp [checkReference_of_free gated, gated]

/-- The checks before and after reading together are one check with the actual version. -/
theorem checks_iff : checkBeforeReading policy files.length version = .ok () ∧
      checkReference policy (RuleReference.classify? files) true = .ok () ↔
    checkReference policy (RuleReference.classify? files) version.supportsRuleOnlyLoads = .ok () := by
  rw [checkBeforeReading_iff, checkReference_iff, checkReference_iff]
  constructor
  · rintro ⟨before, after⟩ gated
    exact ⟨(before gated).2, (after gated).2⟩
  · intro whole
    refine ⟨fun gated => ?_, fun gated => ⟨rfl, (whole gated).2⟩⟩
    obtain ⟨new, rfl | ⟨file, rfl, -⟩⟩ := whole gated
    · exact ⟨Nat.zero_le 1, new⟩
    · exact ⟨Nat.le_refl 1, new⟩

end LoadRule

/-! ## One file -/

def FetchError.IsGate : FetchError → Prop
  | .configuration (.severalRuleFiles _) => True
  | .configuration (.serverTooOld _ _) => True
  | .configuration (.rulesNotXml _) => True
  | _ => False

variable {source : SourceHandle} {components : List Component} {spec : RuleFileSpec} {site site' : Site}
  {e : FetchError}

inductive RuleFileSpec.Reading (source : SourceHandle) (components : List Component) (spec : RuleFileSpec)
    (site : Site) : Except FetchError RuleFile × Site → Prop
  | misplaced {fault : ConfigurationError} (place : spec.location = .error fault) :
      Reading source components spec site (.error (.configuration fault), site)
  | ambiguous {name path : String} {fault : ConfigurationError} (place : spec.location = .ok (name, path))
      (named : Component.named? components name = .error fault) :
      Reading source components spec site (.error (.configuration fault), site)
  | unknown {name path : String} (place : spec.location = .ok (name, path))
      (named : Component.named? components name = .ok none) :
      Reading source components spec site (.error (.configuration (.componentNotFound name)), site)
  | refused {name path : String} {owner : Component} {fault : RepositoryError} {server : Repository}
      (place : spec.location = .ok (name, path)) (named : Component.named? components name = .ok (some owner))
      (answer : Repository.contentOf source owner.id path site.server = (.error fault, server)) :
      Reading source components spec site (.error (.repository fault), { site with server })
  | read {name path content : String} {owner : Component} {server : Repository}
      (place : spec.location = .ok (name, path)) (named : Component.named? components name = .ok (some owner))
      (answer : Repository.contentOf source owner.id path site.server = (.ok content, server)) :
      Reading source components spec site (.ok ⟨spec, owner, .detect content, content⟩, { site with server })

namespace RuleFileSpec

/-- A file that was read is the configured one, in the format of its content. -/
theorem file_of_reading (reads : spec.Reading source components site (.ok file, site')) :
    file.spec = spec ∧ file.format = .detect file.content := by
  cases reads with
  | read place named answer => exact ⟨rfl, rfl⟩

/-- What can be wrong with reading a file is none of what the policy refuses. -/
theorem not_isGate_of_reading (reads : spec.Reading source components site (.error e, site')) : ¬ e.IsGate := by
  cases reads with
  | misplaced place =>
    unfold location at place
    split at place
    · cases place
    · split at place
      · split at place
        · cases place
          exact id
        · cases place
      · cases place
        exact id
  | ambiguous place named =>
    unfold Component.named? at named
    split at named
    · cases named
    · cases named
    · cases named
      exact id
  | unknown place named => exact id
  | refused place named answer => exact id

end RuleFileSpec

namespace Fetch

theorem configured_ok {α : Type} (a : α) : configured (.ok a) = pure a := rfl

theorem configured_error {α : Type} (fault : ConfigurationError) (site : Site) :
    (configured (.error fault) : FetchM α) site = (.error (.configuration fault), site) := rfl

theorem readRuleFile_reading : spec.Reading source components site (readRuleFile source components spec site) := by
  unfold readRuleFile
  cases place : spec.location with
  | error fault => exact .misplaced place
  | ok found =>
    obtain ⟨name, path⟩ := found
    rw [configured_ok, pure_bind]
    dsimp only
    cases named : Component.named? components name with
    | error fault => exact .ambiguous place named
    | ok found =>
      rw [configured_ok, pure_bind]
      cases found with
      | none => exact .unknown place named
      | some owner =>
        dsimp only
        rcases answer : Repository.contentOf source owner.id path site.server with ⟨fault | content, server⟩
        · rw [bind_of_error (served_eq_error.2 ⟨fault, server, answer, rfl, rfl⟩)]
          exact .refused place named answer
        · rw [bind_of_ok (served_eq_ok.2 ⟨server, answer, rfl⟩)]
          exact .read place named answer

theorem not_isGate_of_breaks {specs : List RuleFileSpec}
    (breaks : Breaks (readRuleFile source components) site specs e site') : ¬ e.IsGate := by
  induction breaks with
  | here rest fails => exact RuleFileSpec.not_isGate_of_reading (fails ▸ readRuleFile_reading)
  | later _ _ ih => exact ih

/-! ## All files -/

variable {c : Configuration} {fault : ConfigurationError} {reference : Option RuleReference}

/-- What is wrong before reading keeps everything as it is. -/
theorem readReference_refused (before : LoadRule.checkBeforeReading c.policy c.ruleFiles.length version = .error fault) :
    readReference c version source components site = (.error (.configuration fault), site) := by
  unfold readReference
  rw [before]
  exact bind_of_error (configured_error fault site) _

variable (before : LoadRule.checkBeforeReading c.policy c.ruleFiles.length version = .ok ())

include before

theorem readReference_breaks (breaks : Breaks (readRuleFile source components) site c.ruleFiles e site') :
    readReference c version source components site = (.error e, site') := by
  unfold readReference
  rw [before, configured_ok, pure_bind]
  exact bind_of_error (mapM_iff_breaks.2 breaks) _

theorem readReference_takes (takes : Takes (readRuleFile source components) site c.ruleFiles files site') :
    readReference c version source components site =
      match LoadRule.checkReference c.policy (RuleReference.classify? files) true with
      | .ok () => (.ok (RuleReference.classify? files), site')
      | .error fault => (.error (.configuration fault), site') := by
  unfold readReference
  rw [before, configured_ok, pure_bind, bind_of_ok (mapM_iff_takes.2 takes)]
  cases LoadRule.checkReference c.policy (RuleReference.classify? files) true with
  | ok _ => rfl
  | error fault => rfl

omit before

/-- A reference is made just when all files are read and pass the whole check. -/
theorem readReference_eq_ok : readReference c version source components site = (.ok reference, site') ↔
    ∃ files, Takes (readRuleFile source components) site c.ruleFiles files site' ∧
      LoadRule.checkReference c.policy (RuleReference.classify? files) version.supportsRuleOnlyLoads = .ok () ∧
      reference = RuleReference.classify? files := by
  constructor
  · intro made
    cases before : LoadRule.checkBeforeReading c.policy c.ruleFiles.length version with
    | error fault => cases (readReference_refused before).symm.trans made
    | ok _ =>
      rcases takes_or_breaks (readRuleFile source components) site c.ruleFiles with ⟨files, last, takes⟩ | ⟨e, last, breaks⟩
      · rw [readReference_takes before takes] at made
        cases after : LoadRule.checkReference c.policy (RuleReference.classify? files) true with
        | error fault =>
          rw [after] at made
          cases made
        | ok _ =>
          rw [after] at made
          cases made
          exact ⟨files, takes, LoadRule.checks_iff.1 ⟨takes.length_eq ▸ before, after⟩, rfl⟩
      · cases (readReference_breaks before breaks).symm.trans made
  · rintro ⟨files, takes, whole, rfl⟩
    obtain ⟨before, after⟩ := LoadRule.checks_iff.2 whole
    rw [readReference_takes (takes.length_eq ▸ before) takes, after]

/-! ## The gate -/

structure Gates (c : Configuration) (version : ServerVersion) (source : SourceHandle) (components : List Component)
    (site : Site) : Prop where
  /-- A file is read when its place is right, its component is known and the server has it. -/
  reading : ∀ (spec : RuleFileSpec) (mid : Site), spec.Reading source components mid (readRuleFile source components spec mid)
  /-- The policy refuses several files before it reads one, -/
  several : LoadRule.Gated c.policy → 1 < c.ruleFiles.length → readReference c version source components site =
    (.error (.configuration (.severalRuleFiles c.ruleFiles.length)), site)
  /-- else it refuses an old server, -/
  old : LoadRule.Gated c.policy → c.ruleFiles.length ≤ 1 → compare version ServerVersion.ruleOnlyMinimum = .lt →
    readReference c version source components site = (.error (.configuration (.serverTooOld "6.0.3" version.text)), site)
  /-- else it passes on what is wrong with reading the file, -/
  unread : LoadRule.Gated c.policy → compare version ServerVersion.ruleOnlyMinimum ≠ .lt → ∀ spec e site',
    c.ruleFiles = [spec] → readRuleFile source components spec site = (.error e, site') →
      readReference c version source components site = (.error e, site')
  /-- else it refuses a file that is not XML. -/
  lines : LoadRule.Gated c.policy → compare version ServerVersion.ruleOnlyMinimum ≠ .lt → ∀ spec file site',
    c.ruleFiles = [spec] → readRuleFile source components spec site = (.ok file, site') →
      RuleFormat.detect file.content ≠ .xml →
        readReference c version source components site = (.error (.configuration (.rulesNotXml spec.text)), site')
  /-- What it lets through is no file or one XML file. -/
  made : LoadRule.Gated c.policy → ∀ reference site',
    readReference c version source components site = (.ok reference, site') →
      (c.ruleFiles = [] ∧ reference = none) ∨ ∃ spec file, c.ruleFiles = [spec] ∧
        readRuleFile source components spec site = (.ok file, site') ∧ RuleFormat.detect file.content = .xml ∧
        reference = some { format := .xml, scope := .single, files := [file] }
  /-- Any other policy takes all files that can be read, -/
  free : ¬ LoadRule.Gated c.policy → ∀ files site',
    Takes (readRuleFile source components) site c.ruleFiles files site' →
      readReference c version source components site = (.ok (RuleReference.classify? files), site')
  /-- stops at the first that cannot, -/
  stops : ¬ LoadRule.Gated c.policy → ∀ e site', Breaks (readRuleFile source components) site c.ruleFiles e site' →
    readReference c version source components site = (.error e, site')
  /-- and refuses nothing. -/
  harmless : ¬ LoadRule.Gated c.policy → ∀ e site',
    readReference c version source components site = (.error e, site') → ¬ e.IsGate
  /-- Files that can all be read are let through just when the whole check succeeds. -/
  whole : ∀ files site', Takes (readRuleFile source components) site c.ruleFiles files site' →
    ((∃ reference site'', readReference c version source components site = (.ok reference, site'')) ↔
      LoadRule.checkReference c.policy (RuleReference.classify? files) version.supportsRuleOnlyLoads = .ok ())
  /-- Nothing but the policy and the files counts. -/
  alone : ∀ c' : Configuration, c'.policy = c.policy → c'.ruleFiles = c.ruleFiles →
    readReference c' version source components site = readReference c version source components site

/-- The rule files of a configuration are gated in the same way for every server, source and components. -/
theorem readReference_gates (c : Configuration) (version : ServerVersion) (source : SourceHandle)
    (components : List Component) (site : Site) : Gates c version source components site where
  reading _ _ := readRuleFile_reading
  several gated many := by
    apply readReference_refused
    rw [gated, LoadRule.checkBeforeReading_gated, if_pos many]
  old gated few below := by
    apply readReference_refused
    have unsupported : ¬ version.supportsRuleOnlyLoads = true := fun new =>
      ServerVersion.supportsRuleOnlyLoads_iff.1 new below
    have text : ServerVersion.ruleOnlyMinimum.text = "6.0.3" := by decide +kernel
    rw [gated, LoadRule.checkBeforeReading_gated, if_neg (by omega), if_neg unsupported, text]
  unread gated new spec e site' only fails := by
    refine readReference_breaks (LoadRule.checkBeforeReading_iff.2 fun _ => ?_) (only ▸ .here [] fails)
    exact ⟨by simp [only], ServerVersion.supportsRuleOnlyLoads_iff.2 new⟩
  lines gated new spec file site' only done other := by
    have takes : Takes (readRuleFile source components) site c.ruleFiles [file] site' := only ▸ .cons done (.nil _)
    obtain ⟨same, format⟩ := RuleFileSpec.file_of_reading (done ▸ readRuleFile_reading)
    rw [readReference_takes (LoadRule.checkBeforeReading_iff.2 fun _ => ?_) takes, gated, LoadRule.checkReference_one,
      if_neg (format ▸ other), same]
    exact ⟨by simp [only], ServerVersion.supportsRuleOnlyLoads_iff.2 new⟩
  made gated reference site' made := by
    obtain ⟨files, takes, passes, rfl⟩ := readReference_eq_ok.1 made
    obtain ⟨-, rfl | ⟨file, rfl, markup⟩⟩ := LoadRule.checkReference_iff.1 passes gated
    · exact .inl ⟨List.length_eq_zero_iff.1 takes.length_eq.symm, rfl⟩
    · obtain ⟨spec, only, done⟩ := takes.single
      obtain ⟨-, format⟩ := RuleFileSpec.file_of_reading (done ▸ readRuleFile_reading)
      refine .inr ⟨spec, file, only, done, format ▸ markup, ?_⟩
      simp [RuleReference.classify?, markup]
  free free files site' takes := by
    rw [readReference_takes (LoadRule.checkBeforeReading_of_free free) takes, LoadRule.checkReference_of_free free]
  stops free e site' breaks := readReference_breaks (LoadRule.checkBeforeReading_of_free free) breaks
  -- without a gate only reading can fail, and no fault of reading is a refusal
  harmless free e site' failed := by
    rcases takes_or_breaks (readRuleFile source components) site c.ruleFiles with ⟨files, last, takes⟩ | ⟨e', last, breaks⟩
    · rw [readReference_takes (LoadRule.checkBeforeReading_of_free free) takes,
        LoadRule.checkReference_of_free free] at failed
      cases failed
    · cases (readReference_breaks (LoadRule.checkBeforeReading_of_free free) breaks).symm.trans failed
      exact not_isGate_of_breaks breaks
  whole files site' takes := by
    constructor
    · rintro ⟨reference, last, made⟩
      obtain ⟨files', takes', passes, -⟩ := readReference_eq_ok.1 made
      cases (mapM_iff_takes.2 takes).symm.trans (mapM_iff_takes.2 takes')
      exact passes
    · intro passes
      exact ⟨_, _, readReference_eq_ok.2 ⟨files, takes, passes, rfl⟩⟩
  alone c' samePolicy sameFiles := by
    unfold readReference
    rw [samePolicy, sameFiles]

end Fetch

end SandboxFetch
