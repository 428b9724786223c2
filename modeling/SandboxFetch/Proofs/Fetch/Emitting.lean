/-
  SandboxFetch.Proofs.Fetch.Emitting — the properties that a run hands on.

  The properties are the computed ones with the values of a personal build over them, whatever they are
  computed from. In a run that completed nothing that a value is taken from is empty (`filled_of_run`):
  the destination was checked, each rule file had a place, and the server draws its ids. So no computed
  value is empty, and a policy that the job does not set has a value only if a personal build brings it
  along (`run_emits`).
-/

import SandboxFetch.Proofs.Fetch.Accounting
import SandboxFetch.Proofs.Fetch.Gating
import SandboxFetch.Proofs.Fetch.Lasting
import SandboxFetch.Proofs.Load.Destination
import SandboxFetch.Proofs.Repository.Naming

namespace SandboxFetch

/-! ## What is checked -/

theorem destination_ne_empty {destination : String} {workingDir root : Path} {host : Host}
    (checked : resolveDestination destination workingDir host = .ok root) : destination ≠ "" := by
  rintro rfl
  rw [resolveDestination_eq, if_pos (by decide)] at checked
  cases checked

/-- A rule file that has a place is shown by some text. -/
theorem RuleFileSpec.text_ne_empty {spec : RuleFileSpec} {place : String × String}
    (placed : spec.location = .ok place) : spec.text ≠ "" := by
  unfold location at placed
  unfold text
  cases named : spec.component with
  | some component => simp
  | none =>
    intro empty
    dsimp only at empty
    rw [named, empty] at placed
    cases placed

theorem RuleReference.describe_ne_empty {files : List RuleFile} {r : RuleReference}
    (classified : classify? files = some r) (shown : ∀ file ∈ files, file.spec.text ≠ "") : r.describe ≠ "" := by
  unfold classify? at classified
  cases files with
  | nil => cases classified
  | cons file rest =>
    cases classified
    have first := shown file List.mem_cons_self
    unfold describe
    cases rest with
    | nil => simpa using first
    | cons next rest => simp [String.intercalate_cons_cons, first]

namespace Fetch

variable {m : Machine} {job : Configuration} {r : ResolvedFetch} {source : SourceHandle} {components : List Component}
  {site site' : Site}

/-- Files that were read have their places. -/
theorem text_ne_empty_of_takes {specs : List RuleFileSpec} {files : List RuleFile}
    (takes : Takes (readRuleFile source components) site specs files site') : ∀ file ∈ files, file.spec.text ≠ "" := by
  induction takes with
  | nil => simp
  | cons one _ ih =>
    refine List.forall_mem_cons.2 ⟨?_, ih⟩
    have reads := one ▸ readRuleFile_reading
    cases reads with
    | read place named answer => exact RuleFileSpec.text_ne_empty place

/-- The reference of a resolved fetch was read from the files of the configuration. -/
theorem reference_of_resolve (done : resolve m job site = (.ok r, site')) : ∃ version mid mid',
    readReference job.forRun version r.source r.components mid = (.ok r.reference, mid') := by
  unfold resolve at done
  obtain ⟨root, s₁, -, done⟩ := bind_eq_ok.1 done
  obtain ⟨version, s₂, -, done⟩ := bind_eq_ok.1 done
  obtain ⟨source, s₃, -, done⟩ := bind_eq_ok.1 done
  obtain ⟨⟨⟩, s₄, -, done⟩ := bind_eq_ok.1 done
  obtain ⟨components, s₅, -, done⟩ := bind_eq_ok.1 done
  obtain ⟨reference, s₆, read, done⟩ := bind_eq_ok.1 done
  obtain ⟨rules, s₇, -, done⟩ := bind_eq_ok.1 done
  obtain ⟨set, s₈, -, done⟩ := bind_eq_ok.1 done
  obtain ⟨plan, s₉, -, done⟩ := bind_eq_ok.1 done
  cases done
  exact ⟨version, s₅, s₆, read⟩

theorem describe_ne_empty_of_resolve (done : resolve m job site = (.ok r, site')) :
    ∀ reference, r.reference = some reference → reference.describe ≠ "" := by
  intro reference given
  obtain ⟨version, mid, mid', read⟩ := reference_of_resolve done
  obtain ⟨files, takes, -, classified⟩ := readReference_eq_ok.1 read
  exact RuleReference.describe_ne_empty (classified.symm.trans given) (text_ne_empty_of_takes takes)

/-! ## Runs -/

def propertyInputs (r : ResolvedFetch) (taken : Option AcceptOutcome) : PropertyInputs where
  configuration := r.configuration
  source := r.source
  reference := r.reference
  set := r.set
  accepted := taken.map fun o => (ChangeReport.ofOutcome r.source.workspace o r.configuration.isPersonal).acceptedCount
  baseline := if r.configuration.isPersonal then none else (taken.getD {}).baseline

theorem properties_conclude (r : ResolvedFetch) (files : List Path) (taken : Option AcceptOutcome) :
    (conclude r files taken).properties = .compute (propertyInputs r taken) := by
  cases taken <;> rfl

/-- A baseline that an accept made has a drawn id. -/
theorem baseline_of_accepting {taken : Option AcceptOutcome} {b : Baseline}
    (done : accepting r site = (.ok taken, site')) (made : (taken.getD {}).baseline = some b) : b.id ≠ "" := by
  cases accepts : r.configuration.acceptFirst with
  | false =>
    obtain ⟨rfl, -⟩ := accepting_skipped accepts done
    cases made
  | true =>
    unfold accepting at done
    rw [if_pos accepts] at done
    obtain ⟨o, accepted, rfl⟩ := map_eq_ok.1 done
    obtain ⟨server, answer, asked, rfl, -⟩ := accept_eq_ok.1 accepted
    obtain ⟨s, -, rfl, -⟩ := Repository.accept_eq_ok asked
    rw [Option.getD_some, AcceptOutcome.rescope_eq, (Repository.accept_fields s _ _).1] at made
    dsimp only at made
    split at made
    · cases made
      exact IdSupply.draw_ne_empty _
    · cases made

/-- Nothing that the properties of a run are taken from is empty. -/
theorem filled_of_run {out : FetchOutcome} (reachable : site.server.Reachable)
    (done : run m job site = (.ok out, site')) : ∃ taken, taken.isSome = job.acceptFirst ∧
      out.resolved.configuration = job.forRun ∧ out.report = (conclude out.resolved out.files taken).report ∧
      out.properties = .compute (propertyInputs out.resolved taken) ∧
      Properties.Filled (propertyInputs out.resolved taken) := by
  obtain ⟨r, s₁, s₂, taken, s₃, files, resolved, emptied, accepted, loaded, rfl⟩ := run_eq_ok done
  obtain ⟨resolves, -⟩ := resolve_eq_ok resolved
  obtain ⟨s, found, source⟩ := resolves.source
  -- ids come from a fixture or are drawn, and none of these is empty
  have ids : s.HasIds := reachable.hasIds s (List.mem_of_find?_eq_some found)
  have ran : taken.isSome = job.acceptFirst := by
    rw [← job.acceptFirst_forRun, ← resolves.configuration]
    cases accepts : r.configuration.acceptFirst with
    | true =>
      obtain ⟨-, -, -, rfl, -⟩ := accepting_taken accepts accepted
      rfl
    | false =>
      obtain ⟨rfl, -⟩ := accepting_skipped accepts accepted
      rfl
  refine ⟨taken, ran, resolves.configuration, rfl, properties_conclude r files taken, ?_⟩
  constructor
  · show r.source.workspace ≠ ""
    rw [source]
    exact ids.workspace
  · show r.configuration.destination ≠ ""
    rw [resolves.configuration]
    exact destination_ne_empty (LoadPlan.layOut_eq_ok resolves.plan).1
  · exact describe_ne_empty_of_resolve resolved
  · intro b made
    change (if r.configuration.isPersonal then none else (taken.getD {}).baseline) = some b at made
    split at made
    · cases made
    · exact baseline_of_accepting accepted made
  · show r.source.snapshot ≠ some ""
    rw [source]
    exact ids.snapshot

structure Emits (job : Configuration) (out : FetchOutcome) (i : PropertyInputs) : Prop where
  configuration : i.configuration = job.forRun
  resolved : i.source = out.resolved.source ∧ i.reference = out.resolved.reference ∧ i.set = out.resolved.set
  accepted : i.accepted = if job.acceptFirst then some out.report.acceptedCount else none
  properties : out.properties = .compute i
  filled : ∀ k v, Properties.Computed i k v → v ≠ ""
  /-- A value that is empty was brought along. -/
  empty : ∀ k, out.properties.get? k = some "" → Properties.brought job k = some ""
  policy : job.policy = none → (∀ v, ¬ Properties.Computed i "team_scm_loadPolicy" v) ∧
    out.properties.get? "team_scm_loadPolicy" = Properties.brought job "team_scm_loadPolicy"
  componentPolicy : job.componentPolicy = none → (∀ v, ¬ Properties.Computed i "team_scm_componentLoadConfig" v) ∧
    out.properties.get? "team_scm_componentLoadConfig" = Properties.brought job "team_scm_componentLoadConfig"

/-- The computed properties have the values of the personal build over them, and a run that completed
    computed no empty value, and none for a policy that its job does not set. -/
theorem run_emits :
    (∀ (i : PropertyInputs) (k v : String), (Properties.compute i).get? k = some v ↔
      Properties.brought i.configuration k = some v ∨
        (Properties.brought i.configuration k = none ∧ Properties.Computed i k v)) ∧
    ∀ (m : Machine) (job : Configuration) (site site' : Site) (out : FetchOutcome), site.server.Reachable →
      run m job site = (.ok out, site') → ∃ i, Emits job out i := by
  refine ⟨fun i k v => Properties.get?_compute_eq_some, fun m job site site' out reachable done => ?_⟩
  obtain ⟨taken, ran, configuration, report, properties, filled⟩ := filled_of_run reachable done
  have same : (propertyInputs out.resolved taken).configuration = job.forRun := configuration
  have brought : Properties.brought (propertyInputs out.resolved taken).configuration = Properties.brought job := by
    funext k
    rw [Properties.brought, same, Configuration.personal_forRun, Properties.brought]
  -- a key without a computed value has the value that is brought along for it
  have left : ∀ k, (∀ v, ¬ Properties.Computed (propertyInputs out.resolved taken) k v) →
      out.properties.get? k = Properties.brought job k := by
    intro k none
    rw [properties, Properties.get?_compute_of_not_computed none, brought]
  refine ⟨propertyInputs out.resolved taken, same, ⟨rfl, rfl, rfl⟩, ?_, properties, ?_, ?_, ?_, ?_⟩
  · rw [← ran, report]
    cases taken <;> rfl
  · exact fun k v computed => computed.ne_empty filled
  · intro k empty
    rw [properties, Properties.get?_compute_eq_some, brought] at empty
    rcases empty with named | ⟨-, computed⟩
    · exact named
    · exact absurd rfl (computed.ne_empty filled)
  · intro unset
    have none : ∀ v, ¬ Properties.Computed (propertyInputs out.resolved taken) "team_scm_loadPolicy" v :=
      fun v => Properties.not_computed_loadPolicy (by rw [same, job.forRun_eq, unset])
    exact ⟨none, left _ none⟩
  · intro unset
    have none : ∀ v, ¬ Properties.Computed (propertyInputs out.resolved taken) "team_scm_componentLoadConfig" v :=
      fun v => Properties.not_computed_componentLoadConfig (by rw [same, job.forRun_eq, unset])
    exact ⟨none, left _ none⟩

theorem run_emits_coreOnly : ∃ start out site' i,
    Repository.ofFixture noonOfMay ⟨[], 0, []⟩ twoPending = .ok start ∧
    run workMachine coreOnly { server := start } = (.ok out, site') ∧ Emits coreOnly out i ∧
    out.properties.get? "team_scm_loadComponents" = some "_core" ∧ out.properties.get? "team_scm_loadPolicy" = none := by
  have ok : comesTo twoPending workMachine coreOnly {} (fun _ out _ =>
      out.properties.get? "team_scm_loadComponents" == some "_core") = true := by
    decide +kernel
  obtain ⟨start, out, site', built, ran, listed⟩ := of_comesTo ok
  have reachable : ({ server := start } : Site).server.Reachable := ⟨_, _, _, _, {}, [], built, rfl⟩
  obtain ⟨i, emits⟩ := run_emits.2 workMachine coreOnly _ site' out reachable ran
  exact ⟨start, out, site', i, built, ran, emits, eq_of_beq listed, (emits.policy rfl).2⟩

end Fetch

end SandboxFetch
