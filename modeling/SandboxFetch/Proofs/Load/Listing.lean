/-
  SandboxFetch.Proofs.Load.Listing — the files that a configuration asks for.

  The policies of a configuration put some of a source's components in the set
  (`Configuration.chooses`), and the table of rules has a scope for each (`RuleTable.scopeOf`). From
  these alone follows the list of files below a destination (`listing`). It is what a plan makes the
  source give out (`filesFor_eq_listing`), when the components of the source have different ids.
-/

import Mathlib.Data.List.Nodup
import SandboxFetch.Proofs.Component.Choosing
import SandboxFetch.Proofs.Load.Planning
import SandboxFetch.Proofs.Path.Segments
import SandboxFetch.Repository.Source

namespace SandboxFetch

variable {all named : List Component} {names : List String} {c : Configuration} {rules : RuleTable}

/-! ## Components by policy -/

def Configuration.chooses (c : Configuration) (rules : RuleTable) (component : Component) : Bool :=
  match c.policy, c.componentPolicy with
  | some .loadRules, _ => (rules.forComponent? component.id).isSome
  | some .componentPolicy, some .excludeSome => !c.excludedNames.any (Component.isNamed · component)
  | some .componentPolicy, _ => true
  | none, _ =>
    if c.listIncludes then c.listedNames.any (Component.isNamed · component)
    else !c.listedNames.any (Component.isNamed · component)

/-- The policies choose what they admit by its own name. -/
theorem Configuration.chooses_eq (component : Component) : c.chooses rules component =
    c.admits (rules.forComponent? component.id).isSome (c.consultedNames.any (Component.isNamed · component)) := by
  have formed := forms_of c
  generalize SetOrigin.of c = origin at formed
  unfold chooses admits consultedNames
  cases formed with
  | rulesOnly policy => rw [policy]
  | excludeSome policy excludes => rw [policy, excludes]; rfl
  | loadAll policy other =>
    rw [policy]
    simp only [if_neg other]
  | listedOnly policy includes => rw [policy, includes]; rfl
  | allButListed policy excludes listed =>
    rw [policy, excludes]
    simp [listed]
  | unlisted policy excludes empty => rw [policy, excludes, empty]; rfl

namespace ComponentSet

/-- Where ids are different, the components that names mean are those that have one of the names. -/
theorem any_meant_eq (distinct : (all.map (·.id)).Nodup) {d : Component} (member : d ∈ all) :
    (Component.meant all names).any (·.id == d.id) = names.any (Component.isNamed · d) := by
  rw [Component.any_meant]
  congr 1
  funext name
  rw [Bool.eq_iff_iff, List.any_eq_true]
  constructor
  · rintro ⟨e, listed, both⟩
    rw [Bool.and_eq_true, beq_iff_eq] at both
    rw [← List.inj_on_of_nodup_map distinct listed member both.2]
    exact both.1
  · intro own
    exact ⟨d, member, by rw [own, beq_self_eq_true, Bool.and_self]⟩

/-- The set keeps the components that the policies choose. -/
theorem keeps_eq_chooses (distinct : (all.map (·.id)).Nodup) (h : lookUp all (c.namesFor (.of c)) = .ok named)
    {d : Component} (member : d ∈ all) : (SetOrigin.of c).keeps rules named d = c.chooses rules d := by
  rw [(forms_of c).namesFor_eq] at h
  rw [(forms_of c).keeps_eq h, any_meant_eq distinct member, Configuration.chooses_eq]

end ComponentSet

/-! ## Files by component -/

/-- What is loaded of a component: what its rule selects, and all of it when it has none. -/
def RuleTable.scopeOf (rules : RuleTable) (component : Component) : LoadScope :=
  match rules.forComponent? component.id with
  | some rule => .paths rule.selections
  | none => .full

def filesOf (c : Configuration) (rules : RuleTable) (root : Path) (s : StoredComponent) : List (Path × String) :=
  let folder := if c.componentFolders then root.push ⟨s.component.name⟩ else root
  (s.files.toList.filter fun f => (rules.scopeOf s.component).includes f.1).map fun f => (folder.push ⟨f.1⟩, f.2)

/-- The files that a configuration asks for, component by component in the order of the server. -/
def listing (c : Configuration) (rules : RuleTable) (root : Path) (components : List StoredComponent) :
    List (Path × String) :=
  (components.filter fun s => c.chooses rules s.component).flatMap (filesOf c rules root)

/-! ## Files by plan -/

/-- An empty folder adds nothing to a path but a separator. -/
theorem push_empty_push (p q : Path) : (p.push ⟨""⟩).push q = p.push q := by
  have relative : Path.isAbsolute ⟨""⟩ = false := rfl
  by_cases joined : (p.isEmpty || p.text.toList.getLast? == some '/') = true
  · have same : p.push ⟨""⟩ = p := by simp [Path.push, relative, joined]
    rw [same]
  · have longer : p.push ⟨""⟩ = ⟨p.text ++ "/"⟩ := by simp [Path.push, relative, joined]
    rw [longer]
    unfold Path.push
    by_cases absolute : q.isAbsolute = true
    · rw [if_pos absolute, if_pos absolute]
    · rw [if_neg absolute, if_neg absolute, if_neg joined, if_pos (by simp)]

theorem component?_of_mem {s : Source} {sc : StoredComponent} (distinct : (s.components.map (·.component.id)).Nodup)
    (member : sc ∈ s.components) : s.component? sc.component.id = some sc := by
  unfold Source.component?
  cases found : s.components.find? (·.component.id == sc.component.id) with
  | none =>
    have other := List.find?_eq_none.1 found sc member
    simp at other
  | some other =>
    have same : other.component.id = sc.component.id := by simpa using List.find?_some found
    exact congrArg some (List.inj_on_of_nodup_map distinct (List.mem_of_find?_eq_some found) member same)

/-- What a source gives out for an entry of the plan are the files of its component. -/
theorem filesOf_eq_ok {s : Source} {sc : StoredComponent} {e : PlanEntry} {plan : LoadPlan} {host : Host}
    {files : List (Path × String)} (distinct : (s.components.map (·.component.id)).Nodup) (member : sc ∈ s.components)
    (entry : LoadPlan.entryFor c host ⟨sc.component, rules.forComponent? sc.component.id⟩ = .ok e)
    (given : s.filesOf plan.root ⟨e.component, e.scope, plan.targetDir e⟩ = .ok files) :
    files = filesOf c rules plan.root sc := by
  obtain ⟨folder, component, scope⟩ := LoadPlan.entryFor_eq_ok entry
  have target : ∀ f : Path, (plan.targetDir e).push f =
      (if c.componentFolders then plan.root.push ⟨sc.component.name⟩ else plan.root).push f := by
    intro f
    obtain ⟨-, named⟩ := componentFolder_eq_ok.1 folder
    unfold LoadPlan.targetDir
    rw [named]
    split
    · split
      · next empty => rw [Path.eq_empty empty, push_empty_push]
      · rfl
    · rfl
  obtain ⟨-, found, there, rfl⟩ := Source.filesOf_iff.1 given
  have same : found = sc := by
    rw [component, component?_of_mem distinct member] at there
    exact (Option.some.inj there).symm
  have same' : e.scope = rules.scopeOf sc.component := scope
  subst same
  unfold filesOf
  rw [same']
  refine List.map_congr_left fun f _ => ?_
  rw [target]

/-- Two steps that go through lists element by element put together what the elements come to. -/
theorem flatten_eq_flatMap {α β γ : Type} {R : α → β → Prop} {S : β → List γ → Prop} {f : α → List γ} {l : List α}
    {l' : List β} {lists : List (List γ)} (first : List.Forall₂ R l l') (last : List.Forall₂ S l' lists)
    (each : ∀ a ∈ l, ∀ b fs, R a b → S b fs → fs = f a) : lists.flatten = l.flatMap f := by
  induction first generalizing lists with
  | nil =>
    cases last
    rfl
  | cons r _ ih =>
    cases last with
    | cons s rest =>
      rw [List.flatten_cons, List.flatMap_cons, each _ List.mem_cons_self _ _ r s,
        ih rest fun a member => each a (List.mem_cons_of_mem _ member)]

theorem filesFor_eq_listing {s : Source} {set : ComponentSet} {plan : LoadPlan} {workingDir : Path} {host : Host}
    {files : List (Path × String)} (distinct : (s.components.map (·.component.id)).Nodup)
    (formed : ComponentSet.resolve (s.components.map (·.component)) c rules = .ok set)
    (laid : LoadPlan.layOut set c workingDir host = .ok plan) (given : s.filesFor plan.request = .ok files) :
    files = listing c rules plan.root s.components := by
  obtain ⟨named, looked, rfl⟩ := ComponentSet.resolve_eq_ok formed
  obtain ⟨-, entries⟩ := LoadPlan.layOut_eq_ok laid
  have chosen : s.components.filter (fun sc => (SetOrigin.of c).keeps rules named sc.component) =
      s.components.filter fun sc => c.chooses rules sc.component := by
    refine List.filter_congr fun sc member => ?_
    refine ComponentSet.keeps_eq_chooses ?_ looked (List.mem_map_of_mem member)
    rwa [List.map_map]
  obtain ⟨lists, answers, rfl⟩ := Source.filesFor_iff.1 given
  unfold LoadPlan.request at answers
  rw [List.forall₂_map_left_iff] at answers
  rw [List.forall₂_map_left_iff, List.filter_map, List.forall₂_map_left_iff] at entries
  unfold listing
  rw [← chosen]
  refine flatten_eq_flatMap entries answers fun sc member e fs entry answer => ?_
  exact filesOf_eq_ok distinct (List.mem_of_mem_filter member) entry answer

end SandboxFetch
