/-
  SandboxFetch.Proofs.Load.Planning — what the entries of a plan are.

  A plan has one entry for each component of its set, in the order of the server
  (`layOut_eq_ok`, `resolve_eq_ok`), and puts it into a folder of its name or into none
  (`folder_of_layOut`). The components of a plan are therefore among those of the source, and when
  the latter have different ids, an id means at most one entry (`nodup_ids_of_layOut`). A source
  gives out files for a request only when it has them for each of its entries (`filesFor_iff`).
-/

import SandboxFetch.Load.Layout
import SandboxFetch.Proofs.Results
import SandboxFetch.Repository.Source

namespace SandboxFetch

variable {all : List Component} {c : Configuration} {rules : RuleTable} {set : ComponentSet} {plan : LoadPlan}
  {workingDir : Path} {host : Host}

/-! ## Component sets -/

namespace ComponentSet

theorem resolve_eq_ok (h : resolve all c rules = .ok set) :
    ∃ named, lookUp all (c.namesFor (.of c)) = .ok named ∧ set = {
      origin := .of c
      selections := (all.filter ((SetOrigin.of c).keeps rules named)).map fun c => ⟨c, rules.forComponent? c.id⟩
      named } := by
  unfold resolve at h
  cases found : lookUp all (c.namesFor (.of c)) with
  | error e =>
    simp only [found] at h
    cases h
  | ok named =>
    simp only [found] at h
    cases h
    exact ⟨named, rfl, rfl⟩

/-- The components of a set stand in the order of the server. -/
theorem components_sublist (h : resolve all c rules = .ok set) :
    (set.selections.map (·.component)).Sublist all := by
  obtain ⟨named, -, rfl⟩ := resolve_eq_ok h
  rw [List.map_map]
  have : ((·.component) ∘ fun c : Component => (⟨c, rules.forComponent? c.id⟩ : SelectedComponent)) = id := rfl
  rw [this, List.map_id]
  exact List.filter_sublist

end ComponentSet

/-! ## Plans -/

/-- Without component folders the folder is empty, and with them it is the name if that can be used. -/
theorem componentFolder_eq_ok {on : Bool} {name : String} {folder : Path} :
    componentFolder host on name = .ok folder ↔
      (on = true → folderFault? host name = none) ∧ folder = if on then ⟨name⟩ else ⟨""⟩ := by
  unfold componentFolder
  cases on with
  | false => simp [eq_comm]
  | true =>
    cases folderFault? host name with
    | none => simp [eq_comm]
    | some c => simp

namespace LoadPlan

theorem layOut_ok_iff : layOut set c workingDir host = .ok plan ↔
    resolveDestination c.destination workingDir host = .ok plan.root ∧
      List.Forall₂ (fun s e => entryFor c host s = .ok e) set.selections plan.entries := by
  unfold layOut
  rw [← mapM_eq_ok]
  cases resolveDestination c.destination workingDir host with
  | error e =>
    constructor
    · intro h
      cases h
    · rintro ⟨h, -⟩
      cases h
  | ok root =>
    cases set.selections.mapM (entryFor c host) with
    | error e =>
      constructor
      · intro h
        cases h
      · rintro ⟨-, h⟩
        cases h
    | ok entries =>
      constructor
      · intro h
        cases h
        exact ⟨rfl, rfl⟩
      · rintro ⟨h, h'⟩
        cases h
        cases h'
        rfl

theorem layOut_eq_ok (h : layOut set c workingDir host = .ok plan) :
    resolveDestination c.destination workingDir host = .ok plan.root ∧
      List.Forall₂ (fun s e => entryFor c host s = .ok e) set.selections plan.entries :=
  layOut_ok_iff.1 h

theorem entryFor_eq_ok {s : SelectedComponent} {e : PlanEntry} (h : entryFor c host s = .ok e) :
    componentFolder host c.componentFolders s.component.name = .ok e.folder ∧ e.component = s.component ∧
      e.scope = match s.rule with
        | some rule => .paths rule.selections
        | none => .full := by
  unfold entryFor at h
  cases folder : componentFolder host c.componentFolders s.component.name with
  | error fault =>
    rw [folder] at h
    cases h
  | ok p =>
    rw [folder] at h
    cases h
    exact ⟨rfl, rfl, rfl⟩

theorem components_of_layOut (h : layOut set c workingDir host = .ok plan) :
    plan.entries.map (·.component) = set.selections.map (·.component) := by
  obtain ⟨-, each⟩ := layOut_eq_ok h
  have same : List.Forall₂ (· = ·) (set.selections.map (·.component)) (plan.entries.map (·.component)) := by
    rw [List.forall₂_map_left_iff, List.forall₂_map_right_iff]
    exact each.imp fun s e he => (entryFor_eq_ok he).2.1.symm
  rw [List.forall₂_eq_eq_eq] at same
  exact same.symm

/-- The folder of an entry is the name of its component, or empty when components share. -/
theorem folder_of_layOut (h : layOut set c workingDir host = .ok plan) {e : PlanEntry} (member : e ∈ plan.entries) :
    (c.componentFolders = true → folderFault? host e.component.name = none) ∧
      e.folder = if c.componentFolders then ⟨e.component.name⟩ else ⟨""⟩ := by
  obtain ⟨s, -, made⟩ := exists_of_mem_right (layOut_eq_ok h).2 member
  obtain ⟨folder, component, -⟩ := entryFor_eq_ok made
  rw [← component] at folder
  exact componentFolder_eq_ok.1 folder

/-- When the components of a source have different ids, so have the entries of a plan for it. -/
theorem nodup_ids_of_layOut (distinct : (all.map (·.id)).Nodup)
    (formed : ComponentSet.resolve all c rules = .ok set) (h : layOut set c workingDir host = .ok plan) :
    plan.ids.Nodup := by
  have sub := (ComponentSet.components_sublist formed).map (·.id)
  rw [← components_of_layOut h, List.map_map] at sub
  exact distinct.sublist sub

end LoadPlan

/-! ## Requests -/

namespace Source

theorem filesOf_iff {s : Source} {root : Path} {e : LoadEntry} {files : List (Path × String)} :
    s.filesOf root e = .ok files ↔ e.target.startsWith root = true ∧ ∃ c, s.component? e.component.id = some c ∧
      files = (c.files.toList.filter fun f => e.scope.includes f.1).map fun f => (e.target.push ⟨f.1⟩, f.2) := by
  unfold filesOf
  cases begins : e.target.startsWith root with
  | false => simp
  | true =>
    cases s.component? e.component.id with
    | none => simp
    | some c => simp [eq_comm]

theorem filesFor_iff {s : Source} {request : LoadRequest} {files : List (Path × String)} :
    s.filesFor request = .ok files ↔ ∃ lists,
      List.Forall₂ (fun e list => s.filesOf request.root e = .ok list) request.entries lists ∧ files = lists.flatten := by
  unfold filesFor
  simp only [← mapM_eq_ok]
  cases request.entries.mapM (s.filesOf request.root) with
  | error e =>
    constructor
    · intro h
      cases h
    · rintro ⟨_, h, -⟩
      cases h
  | ok lists =>
    constructor
    · intro h
      cases h
      exact ⟨lists, rfl, rfl⟩
    · rintro ⟨_, h, rfl⟩
      cases h
      rfl

end Source

end SandboxFetch
