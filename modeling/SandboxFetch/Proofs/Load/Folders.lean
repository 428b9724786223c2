/-
  SandboxFetch.Proofs.Load.Folders — where a plan puts its components.

  Without component folders all components share the destination. With them, the name of a component
  has to be free of reserved characters and of separators, and is then appended to the destination as
  a single segment. That is a folder one level below for every name but three (`IsFolderName`): the
  empty name and `.` stay at the destination, and `..` leaves it. So components with different names
  are kept apart when none of the names is one of the three (`layOut_places`), and otherwise one of
  them can lie inside another (`not_below_up`).
-/

import SandboxFetch.Proofs.Load.Forward
import SandboxFetch.Proofs.Path.Lexical

namespace SandboxFetch

variable {set : ComponentSet} {c : Configuration} {workingDir : Path} {host : Host} {plan : LoadPlan}

/-! ## Names of folders -/

/-- Only characters can keep a name from being used. -/
theorem folderFault?_eq_none {name : String} : folderFault? host name = none ↔
    host.firstReserved? name.toList = none ∧ '/' ∉ name.toList ∧ '\\' ∉ name.toList := by
  have separators : name.toList.find? (fun c => c == '/' || c == '\\') = none ↔
      '/' ∉ name.toList ∧ '\\' ∉ name.toList := by
    simp only [List.find?_eq_none, Bool.or_eq_true, beq_iff_eq, not_or]
    constructor
    · exact fun free => ⟨fun slash => (free _ slash).1 rfl, fun slash => (free _ slash).2 rfl⟩
    · rintro ⟨slash, backslash⟩ d member
      exact ⟨fun same => slash (same ▸ member), fun same => backslash (same ▸ member)⟩
  unfold folderFault?
  cases host.firstReserved? name.toList with
  | none => simpa using separators
  | some reserved => simp

def IsFolderName (name : String) : Prop := name ≠ "" ∧ name ≠ "." ∧ name ≠ ".."

instance (name : String) : Decidable (IsFolderName name) := inferInstanceAs (Decidable (_ ∧ _))

/-! ## Entries -/

namespace LoadPlan

/-- Only the name of a component can keep it out of a plan. -/
theorem entryFor_ok_iff {s : SelectedComponent} : (∃ e, entryFor c host s = .ok e) ↔
    (c.componentFolders = true → folderFault? host s.component.name = none) := by
  constructor
  · rintro ⟨e, made⟩
    exact (componentFolder_eq_ok.1 (entryFor_eq_ok made).1).1
  · intro free
    unfold entryFor
    rw [componentFolder_eq_ok.2 ⟨free, rfl⟩]
    exact ⟨_, rfl⟩

/-- A component set is laid out when the destination is right and the names can be used. -/
theorem exists_layOut_iff : (∃ plan, layOut set c workingDir host = .ok plan) ↔
    (∃ root, resolveDestination c.destination workingDir host = .ok root) ∧
      (c.componentFolders = true → ∀ s ∈ set.selections, folderFault? host s.component.name = none) := by
  constructor
  · rintro ⟨plan, laid⟩
    obtain ⟨root, entries⟩ := layOut_ok_iff.1 laid
    refine ⟨⟨_, root⟩, fun on s selected => ?_⟩
    obtain ⟨e, -, made⟩ := exists_of_mem_right entries.flip selected
    exact entryFor_ok_iff.1 ⟨e, made⟩ on
  · rintro ⟨⟨root, found⟩, free⟩
    obtain ⟨entries, made⟩ := exists_forall₂ fun s selected => entryFor_ok_iff.2 fun on => free on s selected
    exact ⟨⟨root, entries⟩, layOut_ok_iff.2 ⟨found, made⟩⟩

/-- The places of two entries are different, and neither is inside the other. -/
def Apart (plan : LoadPlan) (e e' : PlanEntry) : Prop :=
  ∀ here, ¬ (plan.targetDir e).lexical here <+: (plan.targetDir e').lexical here ∧
    ¬ (plan.targetDir e').lexical here <+: (plan.targetDir e).lexical here

theorem Apart.symm {e e' : PlanEntry} (apart : plan.Apart e e') : plan.Apart e' e := fun here => (apart here).symm

variable (laid : layOut set c workingDir host = .ok plan) (on : c.componentFolders = true) {e e' : PlanEntry}
  (member : e ∈ plan.entries) (here : Location)

include laid on member

/-- Where the name of a component leads from the destination. -/
theorem lexical_targetDir : (plan.targetDir e).lexical here =
    if Path.Idle e.component.name then plan.root.lexical here else (plan.root.lexical here).move e.component.name := by
  obtain ⟨free, named⟩ := folder_of_layOut laid member
  rw [if_pos on] at named
  unfold targetDir
  rw [named]
  split
  · next empty => rw [if_pos (.inl (congrArg Path.text (Path.eq_empty empty)))]
  · exact Path.lexical_push_segment (folderFault?_eq_none.1 (free on)).2.1 here

theorem lexical_targetDir_folder (proper : IsFolderName e.component.name) :
    (plan.targetDir e).lexical here = plan.root.lexical here ++ [e.component.name] := by
  obtain ⟨named, dot, up⟩ := proper
  rw [lexical_targetDir laid on member, if_neg (not_or.2 ⟨named, dot⟩), Location.move, if_neg up]

theorem lexical_targetDir_idle (idle : Path.Idle e.component.name) :
    (plan.targetDir e).lexical here = plan.root.lexical here := by
  rw [lexical_targetDir laid on member, if_pos idle]

theorem lexical_targetDir_up (up : e.component.name = "..") :
    (plan.targetDir e).lexical here = (plan.root.lexical here).dropLast := by
  rw [lexical_targetDir laid on member, up, if_neg (by decide)]
  rfl

/-- A name that is not that of a folder puts its component at the destination or above it. -/
theorem targetDir_prefix_root (improper : ¬ IsFolderName e.component.name) :
    (plan.targetDir e).lexical here <+: plan.root.lexical here := by
  by_cases up : e.component.name = ".."
  · rw [lexical_targetDir_up laid on member here up]
    exact List.dropLast_prefix _
  · have idle : Path.Idle e.component.name := by
      by_contra busy
      exact improper ⟨(not_or.1 busy).1, (not_or.1 busy).2, up⟩
    have same := lexical_targetDir_idle laid on member here idle
    exact same ▸ List.prefix_rfl

theorem root_prefix_targetDir (level : e.component.name ≠ "..") :
    plan.root.lexical here <+: (plan.targetDir e).lexical here := by
  rw [lexical_targetDir laid on member, Location.move, if_neg level]
  split
  · exact List.prefix_rfl
  · exact List.prefix_append _ _

variable (member' : e' ∈ plan.entries) (different : e.component.name ≠ e'.component.name)

include member' different

/-- A component that is apart from one of another name has the name of a folder. -/
theorem isFolderName_of_apart (apart : plan.Apart e e') : IsFolderName e.component.name := by
  by_contra improper
  have above := targetDir_prefix_root laid on member [] improper
  by_cases up : e'.component.name = ".."
  · -- the other one is above the destination, and this one is not above that
    have above' := targetDir_prefix_root laid on member' [] fun proper => proper.2.2 up
    have level := root_prefix_targetDir laid on member [] fun up' => different (up'.trans up.symm)
    exact (apart []).2 (above'.trans level)
  · exact (apart []).1 (above.trans (root_prefix_targetDir laid on member' [] up))

theorem apart_of_isFolderName (proper : IsFolderName e.component.name) (proper' : IsFolderName e'.component.name) :
    plan.Apart e e' := by
  have names : ∀ {here : Location} {name name' : String}, here ++ [name] <+: here ++ [name'] → name = name' := by
    intro here name name' inside
    rw [List.prefix_append_right_inj] at inside
    exact List.singleton_inj.1 (inside.eq_of_length rfl)
  intro here
  rw [lexical_targetDir_folder laid on member here proper, lexical_targetDir_folder laid on member' here proper']
  exact ⟨fun inside => different (names inside), fun inside => different (names inside).symm⟩

end LoadPlan

/-! ## Plans -/

structure Places (set : ComponentSet) (c : Configuration) (plan : LoadPlan) : Prop where
  components : plan.entries.map (·.component) = set.selections.map (·.component)
  /-- Without component folders, all share the destination. -/
  shared : c.componentFolders = false → ∀ e ∈ plan.entries, plan.targetDir e = plan.root
  /-- With them, a component is one level below the destination under its name just when that is the
      name of a folder. -/
  below : c.componentFolders = true → ∀ e ∈ plan.entries,
    ((∀ here, (plan.targetDir e).lexical here = plan.root.lexical here ++ [e.component.name]) ↔
      IsFolderName e.component.name)
  /-- Two names keep a component at the destination itself, -/
  stays : c.componentFolders = true → ∀ e ∈ plan.entries, e.component.name = "" ∨ e.component.name = "." →
    ∀ here, (plan.targetDir e).lexical here = plan.root.lexical here
  /-- and one puts it above. -/
  climbs : c.componentFolders = true → ∀ e ∈ plan.entries, e.component.name = ".." →
    ∀ here, (plan.targetDir e).lexical here = (plan.root.lexical here).dropLast
  /-- Components of different names are neither at the same place nor inside one another just when both
      names are those of folders. -/
  apart : c.componentFolders = true → ∀ e ∈ plan.entries, ∀ e' ∈ plan.entries, e.component.name ≠ e'.component.name →
    (plan.Apart e e' ↔ IsFolderName e.component.name ∧ IsFolderName e'.component.name)

theorem places_of_layOut (laid : LoadPlan.layOut set c workingDir host = .ok plan) : Places set c plan where
  components := LoadPlan.components_of_layOut laid
  shared off e member := by
    obtain ⟨-, folder⟩ := LoadPlan.folder_of_layOut laid member
    rw [off] at folder
    unfold LoadPlan.targetDir
    rw [folder]
    rfl
  below on e member := by
    refine ⟨fun level => ?_, fun proper here => LoadPlan.lexical_targetDir_folder laid on member here proper⟩
    by_contra improper
    have shorter := (LoadPlan.targetDir_prefix_root laid on member [] improper).length_le
    rw [level [], List.length_append, List.length_singleton] at shorter
    omega
  stays on e member idle here := LoadPlan.lexical_targetDir_idle laid on member here idle
  climbs on e member up here := LoadPlan.lexical_targetDir_up laid on member here up
  apart on e member e' member' different :=
    ⟨fun apart => ⟨LoadPlan.isFolderName_of_apart laid on member member' different apart,
        LoadPlan.isFolderName_of_apart laid on member' member different.symm apart.symm⟩,
      fun ⟨proper, proper'⟩ => LoadPlan.apart_of_isFolderName laid on member member' different proper proper'⟩

/-- A component set is laid out just when its destination is right and, with component folders, no name
    has a character that a folder must not have; each component then has the place that its name
    gives it. -/
theorem layOut_places (set : ComponentSet) (c : Configuration) (workingDir : Path) (host : Host) :
    ((∃ plan, LoadPlan.layOut set c workingDir host = .ok plan) ↔
      (∃ root, resolveDestination c.destination workingDir host = .ok root) ∧
        (c.componentFolders = true → ∀ s ∈ set.selections, folderFault? host s.component.name = none)) ∧
    ∀ plan, LoadPlan.layOut set c workingDir host = .ok plan → Places set c plan :=
  ⟨LoadPlan.exists_layOut_iff, fun _ laid => places_of_layOut laid⟩

/-! ## Folders that stay, and names that are none -/

def inFolders : Configuration := { selection := ⟨.workspace, "ws"⟩, destination := "out", componentFolders := true }

def setOfNames (names : List String) : ComponentSet :=
  ⟨.unlisted, names.map fun name => ⟨⟨"_" ++ name, name⟩, none⟩, []⟩

theorem layOut_places_inFolders : ∃ plan,
    LoadPlan.layOut (setOfNames ["core", "core.d"]) inFolders "/work" .unix = .ok plan ∧
    ∀ e ∈ plan.entries, ∀ here, (plan.targetDir e).lexical here = plan.root.lexical here ++ [e.component.name] := by
  obtain ⟨made, places⟩ := layOut_places (setOfNames ["core", "core.d"]) inFolders "/work" .unix
  obtain ⟨plan, laid⟩ := made.2 ⟨⟨"/work/out", by decide +kernel⟩, fun _ => by decide +kernel⟩
  have placed := places plan laid
  refine ⟨plan, laid, fun e member => (placed.below rfl e member).2 ?_⟩
  have named : e.component ∈ (setOfNames ["core", "core.d"]).selections.map (·.component) := by
    rw [← placed.components]
    exact List.mem_map_of_mem member
  rcases List.mem_pair.1 named with same | same
  · rw [same]
    decide
  · rw [same]
    decide

/-- The component `..` is put above the destination, and what the component `a` has lies inside it. -/
theorem not_below_up : ∃ plan up a,
    LoadPlan.layOut (setOfNames ["..", "a"]) inFolders "/work" .unix = .ok plan ∧ plan.entries = [up, a] ∧
    up.component.name = ".." ∧ a.component.name = "a" ∧ plan.root.lexical [] = ["work", "out"] ∧
    (plan.targetDir up).lexical [] = ["work"] ∧ (plan.targetDir a).lexical [] = ["work", "out", "a"] := by
  refine ⟨⟨"/work/out", [⟨⟨"_..", ".."⟩, .full, ".."⟩, ⟨⟨"_a", "a"⟩, .full, "a"⟩]⟩, _, _, ?_, rfl, rfl, rfl, ?_, ?_,
    ?_⟩ <;> decide +kernel

end SandboxFetch
