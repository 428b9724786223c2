/-
  SandboxFetch.Proofs.Properties — which value a property has.

  Each computed property has a key of its own, and is there under a condition of its own (`Computed`).
  As no two of them share a key (`nodup_computed`), the map of the computed properties says just what
  is computed (`get?_computed`). The values of a personal build are looked up first, and the computed
  ones behind them (`get?_compute`), so a key that the personal build does not name has its computed
  value or none (`get?_compute_eq_some`).
-/

import SandboxFetch.Proofs.Dict
import SandboxFetch.Proofs.Text.Numeral
import SandboxFetch.Properties

namespace SandboxFetch

namespace Properties

variable {i : PropertyInputs} {k v : String}

/-! ## Computed properties -/

def constantKeys : List String :=
  ["team_scm_workspaceUUID", "team_scm_fetchDestination", "team_scm_deleteDestinationBeforeFetch",
    "team_scm_acceptBeforeFetch", "team_scm_createFoldersForComponents"]

def listingKeys : List String := ["team_scm_includeComponents", "team_scm_loadComponents"]

def TellsNamed (s : ComponentSet) : Prop :=
  (s.origin = .listedOnly ∨ s.origin = .allButListed ∨ s.origin = .excludeSome) ∧ joinIds s.named ≠ ""

inductive Computed (i : PropertyInputs) : String → String → Prop
  | workspace : Computed i "team_scm_workspaceUUID" i.source.workspace
  | destination : Computed i "team_scm_fetchDestination" i.configuration.destination
  | deleteFirst : Computed i "team_scm_deleteDestinationBeforeFetch" (ofFlag i.configuration.deleteFirst)
  | acceptFirst : Computed i "team_scm_acceptBeforeFetch" (ofFlag i.configuration.acceptFirst)
  | componentFolders : Computed i "team_scm_createFoldersForComponents" (ofFlag i.configuration.componentFolders)
  | rules {r : RuleReference} (given : i.reference = some r) : Computed i "team_scm_componentLoadRules" r.describe
  | includes (origin : i.set.origin = .listedOnly) : Computed i "team_scm_includeComponents" "true"
  | listed (told : TellsNamed i.set) : Computed i "team_scm_loadComponents" (joinIds i.set.named)
  | baseline {b : Baseline} (made : i.baseline = some b) : Computed i "team_scm_snapshotUUID" b.id
  /-- The snapshot of the source counts when no baseline was made. -/
  | snapshot {id : ItemId} (unmade : i.baseline = none) (loaded : i.source.snapshot = some id) :
      Computed i "team_scm_snapshotUUID" id
  | accepted {n : Nat} (counted : i.accepted = some n) : Computed i "team_scm_changesAccepted" (Text.writeNat n)
  | policy {p : LoadPolicy} (set : i.configuration.policy = some p) : Computed i "team_scm_loadPolicy" p.key
  | componentPolicy {p : ComponentPolicy} (set : i.configuration.componentPolicy = some p) :
      Computed i "team_scm_componentLoadConfig" p.key

theorem mem_optional {key : String} {value : Option String} :
    (k, v) ∈ optional key value ↔ k = key ∧ value = some v := by
  unfold optional
  cases value with
  | none => simp
  | some w => simp [eq_comm]

theorem mem_ofListing {s : ComponentSet} : (k, v) ∈ ofListing s ↔
    (k = "team_scm_includeComponents" ∧ s.origin = .listedOnly ∧ v = "true") ∨
    (k = "team_scm_loadComponents" ∧ TellsNamed s ∧ v = joinIds s.named) := by
  unfold ofListing TellsNamed
  by_cases none : joinIds s.named = "" <;> cases s.origin <;> simp [none, ofFlag]

/-- The computed properties are those that have a value. -/
theorem mem_computed : (k, v) ∈ computed i ↔ Computed i k v := by
  simp only [computed, List.mem_append, List.mem_cons, List.not_mem_nil, or_false, Prod.mk.injEq, mem_optional,
    mem_ofListing, Option.map_eq_some_iff]
  constructor
  · rintro ((((((constant | ⟨rfl, r, given, rfl⟩) | (⟨rfl, origin, rfl⟩ | ⟨rfl, told, rfl⟩)) |
      ⟨rfl, snapshot⟩) | ⟨rfl, n, counted, rfl⟩) | ⟨rfl, p, set, rfl⟩) | ⟨rfl, p, set, rfl⟩)
    · rcases constant with ⟨rfl, rfl⟩ | ⟨rfl, rfl⟩ | ⟨rfl, rfl⟩ | ⟨rfl, rfl⟩ | ⟨rfl, rfl⟩
      · exact .workspace
      · exact .destination
      · exact .deleteFirst
      · exact .acceptFirst
      · exact .componentFolders
    · exact .rules given
    · exact .includes origin
    · exact .listed told
    · cases made : i.baseline with
      | none =>
        rw [made] at snapshot
        exact .snapshot made snapshot
      | some b =>
        rw [made] at snapshot
        cases snapshot
        exact .baseline made
    · exact .accepted counted
    · exact .policy set
    · exact .componentPolicy set
  · intro computed
    cases computed with
    | workspace | destination | deleteFirst | acceptFirst | componentFolders => simp
    | rules given => simp [given]
    | includes origin => simp [origin]
    | listed told => simp [told]
    | baseline made => simp [made]
    | snapshot unmade loaded => simp [unmade, loaded]
    | accepted counted => simp [counted]
    | policy set => simp [set]
    | componentPolicy set => simp [set]

theorem keys_optional_sublist (key : String) (value : Option String) :
    ((optional key value).map (·.1)).Sublist [key] := by
  cases value with
  | none => exact List.nil_sublist _
  | some v => exact List.Sublist.refl _

theorem keys_ofListing_sublist (s : ComponentSet) : ((ofListing s).map (·.1)).Sublist listingKeys := by
  unfold ofListing listingKeys
  by_cases none : joinIds s.named = "" <;> cases s.origin <;> simp [none]

/-- No two computed properties have one key. -/
theorem nodup_computed (i : PropertyInputs) : ((computed i).map (·.1)).Nodup := by
  have sublist : ((computed i).map (·.1)).Sublist (constantKeys ++ ["team_scm_componentLoadRules"] ++ listingKeys ++
      ["team_scm_snapshotUUID"] ++ ["team_scm_changesAccepted"] ++ ["team_scm_loadPolicy"] ++
      ["team_scm_componentLoadConfig"]) := by
    unfold computed
    simp only [List.map_append]
    exact ((((((List.Sublist.refl constantKeys).append (keys_optional_sublist _ _)).append
      (keys_ofListing_sublist _)).append (keys_optional_sublist _ _)).append (keys_optional_sublist _ _)).append
      (keys_optional_sublist _ _)).append (keys_optional_sublist _ _)
  exact sublist.nodup (by decide)

theorem get?_computed : (Dict.ofList (computed i)).get? k = some v ↔ Computed i k v :=
  (Dict.get?_ofList_eq_some (nodup_computed i)).trans mem_computed

theorem get?_computed_changesAccepted (i : PropertyInputs) :
    (Dict.ofList (computed i)).get? "team_scm_changesAccepted" = i.accepted.map Text.writeNat := by
  refine Option.ext fun v => ?_
  rw [get?_computed, Option.map_eq_some_iff]
  constructor
  · intro computed
    generalize key : "team_scm_changesAccepted" = k at computed
    cases computed with
    | accepted counted => exact ⟨_, counted, rfl⟩
    | _ => simp at key
  · rintro ⟨n, counted, rfl⟩
    exact .accepted counted

theorem get?_computed_snapshot (i : PropertyInputs) : (Dict.ofList (computed i)).get? "team_scm_snapshotUUID" =
    (i.baseline.map (·.id)).or i.source.snapshot := by
  refine Option.ext fun v => ?_
  rw [get?_computed]
  constructor
  · intro computed
    generalize key : "team_scm_snapshotUUID" = k at computed
    cases computed with
    | baseline made =>
      rw [made]
      rfl
    | snapshot unmade loaded =>
      rw [unmade, loaded]
      rfl
    | _ => simp at key
  · intro shown
    cases made : i.baseline with
    | none =>
      rw [made] at shown
      exact .snapshot made shown
    | some b =>
      rw [made] at shown
      cases shown
      exact .baseline made

/-! ## The properties of a run -/

/-- The values of a personal build win over the computed ones. -/
theorem get?_compute (i : PropertyInputs) (k : String) : (compute i).get? k =
    (i.configuration.personal.bind (·.properties.get? k)).or ((Dict.ofList (computed i)).get? k) := by
  unfold compute
  rw [Dict.get?_ofList_append]
  cases i.configuration.personal with
  | none => rfl
  | some personal =>
    show ((Dict.ofList personal.properties.toList).get? k).or _ = _
    rw [Dict.ofList_toList]
    rfl

/-- The value that a configuration brings along for a key, which is a value of its personal build. -/
def brought (c : Configuration) (k : String) : Option String := c.personal.bind (·.properties.get? k)

/-- A key has the value that is brought along for it, and its computed value when none is. -/
theorem get?_compute_eq_some : (compute i).get? k = some v ↔
    brought i.configuration k = some v ∨ (brought i.configuration k = none ∧ Computed i k v) := by
  rw [get?_compute, Option.or_eq_some_iff, get?_computed]
  rfl

theorem get?_compute_of_not_computed (uncomputed : ∀ v, ¬ Computed i k v) :
    (compute i).get? k = brought i.configuration k := by
  refine Option.ext fun v => ?_
  rw [get?_compute_eq_some]
  constructor
  · rintro (named | ⟨-, computed⟩)
    · exact named
    · exact absurd computed (uncomputed v)
  · exact .inl

/-- A load policy that is not set has no computed value. -/
theorem not_computed_loadPolicy (unset : i.configuration.policy = none) : ¬ Computed i "team_scm_loadPolicy" v := by
  generalize key : "team_scm_loadPolicy" = k
  intro computed
  cases computed with
  | policy set => cases unset.symm.trans set
  | _ => simp at key

theorem not_computed_componentLoadConfig (unset : i.configuration.componentPolicy = none) :
    ¬ Computed i "team_scm_componentLoadConfig" v := by
  generalize key : "team_scm_componentLoadConfig" = k
  intro computed
  cases computed with
  | componentPolicy set => cases unset.symm.trans set
  | _ => simp at key

/-! ## Empty values -/

theorem ofFlag_ne_empty (b : Bool) : ofFlag b ≠ "" := by
  cases b <;> decide

/-- Nothing that a value is taken from is empty. -/
structure Filled (i : PropertyInputs) : Prop where
  workspace : i.source.workspace ≠ ""
  destination : i.configuration.destination ≠ ""
  rules : ∀ r, i.reference = some r → r.describe ≠ ""
  baseline : ∀ b, i.baseline = some b → b.id ≠ ""
  snapshot : i.source.snapshot ≠ some ""

/-- What does not apply is left out, so nothing empty is computed. -/
theorem Computed.ne_empty (filled : Filled i) (computed : Computed i k v) : v ≠ "" := by
  cases computed with
  | workspace => exact filled.workspace
  | destination => exact filled.destination
  | deleteFirst | acceptFirst | componentFolders => exact ofFlag_ne_empty _
  | rules given => exact filled.rules _ given
  | includes origin => decide
  | listed told => exact told.2
  | baseline made => exact filled.baseline _ made
  | snapshot unmade loaded =>
    rintro rfl
    exact filled.snapshot loaded
  | @accepted n counted =>
    rw [← String.toList_inj.ne]
    exact Text.toList_writeNat_ne_nil n
  | @policy p set => cases p <;> decide
  | @componentPolicy p set => cases p <;> decide

end Properties

end SandboxFetch
