/-
  SandboxFetch.Proofs.LoadRule.Binding — which component a rule is for.

  A rule that names no component is for the holder of its file. One that names a component is for that
  component when its file is the only one; among several files it is for the holder when it refers to
  the holder, and else for none (`RuleEntry.BoundTo`). The look-up finds just this component
  (`boundTo_iff`), and it fails only in a single file, when the name or id does not mean one component
  (`exists_target_iff`).
-/

import SandboxFetch.LoadRule.Table
import SandboxFetch.Proofs.Results

namespace SandboxFetch

variable {scope : RuleScope} {components : List Component} {owner c : Component} {ref : ComponentRef} {e : RuleEntry}
  {id : ItemId} {name : String} {found : Option Component}

/-! ## Names -/

theorem Component.named?_eq_some_iff : named? components name = .ok (some c) ↔
    components.filter (isNamed name) = [c] := by
  unfold named?
  split
  · next none => simp [none]
  · next d only => simp [only]
  · next several notNone notOne =>
    constructor
    · intro h
      cases h
    · intro only
      exact absurd only (notOne c)

theorem Component.isNamed_of_named? (found : named? components name = .ok (some c)) : c.isNamed name = true := by
  have only : components.filter (isNamed name) = [c] := named?_eq_some_iff.1 found
  exact List.of_mem_filter (only ▸ List.mem_singleton_self c)

namespace ComponentRef

/-- A component is named by its id, or by its name up to white space at the edges. -/
def Names : ComponentRef → Component → Prop
  | .byName name, c => c.isNamed name = true
  | .byId id, c => c.id = id

/-- A reference means one of some components: no more than one has the name, or one at least the id. -/
def IsSettled (components : List Component) : ComponentRef → Prop
  | .byName name => components.countP (Component.isNamed name) = 1
  | .byId id => ∃ c ∈ components, c.id = id

def Finds (components : List Component) : ComponentRef → Component → Prop
  | .byName name, c => components.filter (Component.isNamed name) = [c]
  | .byId id, c => components.find? (·.id == id) = some c

theorem exists_finds_iff : (∃ c, ref.Finds components c) ↔ ref.IsSettled components := by
  cases ref with
  | byName name =>
    show _ ↔ components.countP _ = 1
    rw [List.countP_eq_length_filter, List.length_eq_one_iff]
    rfl
  | byId id =>
    show (∃ c, components.find? _ = some c) ↔ ∃ c ∈ components, c.id = id
    rw [← Option.isSome_iff_exists, List.find?_isSome]
    simp

/-- What is found is named, and whatever else is named has the same id. -/
theorem names_of_finds (h : ref.Finds components c) :
    (c ∈ components ∧ ref.Names c) ∧ ∀ d ∈ components, ref.Names d → d.id = c.id := by
  cases ref with
  | byName name =>
    have only : ∀ d, d ∈ components ∧ Component.isNamed name d = true ↔ d = c := by
      intro d
      rw [← List.mem_filter, show components.filter _ = [c] from h, List.mem_singleton]
    exact ⟨(only c).2 rfl, fun d there named => congrArg Component.id ((only d).1 ⟨there, named⟩)⟩
  | byId id =>
    have same : c.id = id := by simpa using List.find?_some h
    exact ⟨⟨List.mem_of_find?_eq_some h, same⟩, fun d _ named => Eq.trans named same.symm⟩

end ComponentRef

/-! ## Binding -/

namespace RuleEntry

/-- A rule in a file of some holder is for the component with an id. -/
inductive BoundTo (scope : RuleScope) (components : List Component) (owner : Component) (e : RuleEntry)
    (id : ItemId) : Prop
  | unnamed (silent : e.component = none) (holder : owner.id = id)
  | named {ref : ComponentRef} {c : Component} (alone : scope = .single) (wanted : e.component = some ref)
      (there : c ∈ components) (names : ref.Names c) (same : c.id = id)
  | holder {ref : ComponentRef} (several : scope = .perComponent) (wanted : e.component = some ref)
      (refers : ref.refersTo owner = true) (holder : owner.id = id)

/-- In a single file a rule names no component or one. -/
def IsSettled (scope : RuleScope) (components : List Component) (e : RuleEntry) : Prop :=
  scope = .single → ∀ ref, e.component = some ref → ref.IsSettled components

theorem boundTo_of_silent (silent : e.component = none) : e.BoundTo scope components owner id ↔ owner.id = id := by
  constructor
  · rintro (⟨-, holder⟩ | ⟨-, wanted⟩ | ⟨-, wanted⟩)
    · exact holder
    · cases silent.symm.trans wanted
    · cases silent.symm.trans wanted
  · exact .unnamed silent

theorem boundTo_single (wanted : e.component = some ref) :
    e.BoundTo .single components owner id ↔ ∃ c ∈ components, ref.Names c ∧ c.id = id := by
  constructor
  · rintro (⟨silent⟩ | ⟨-, wanted', there, names, same⟩ | ⟨several⟩)
    · cases wanted.symm.trans silent
    · cases wanted.symm.trans wanted'
      exact ⟨_, there, names, same⟩
    · cases several
  · rintro ⟨c, there, names, same⟩
    exact .named rfl wanted there names same

theorem boundTo_perComponent (wanted : e.component = some ref) :
    e.BoundTo .perComponent components owner id ↔ ref.refersTo owner = true ∧ owner.id = id := by
  constructor
  · rintro (⟨silent⟩ | ⟨alone⟩ | ⟨-, wanted', refers, holder⟩)
    · cases wanted.symm.trans silent
    · cases alone
    · cases wanted.symm.trans wanted'
      exact ⟨refers, holder⟩
  · rintro ⟨refers, holder⟩
    exact .holder rfl wanted refers holder

end RuleEntry

namespace RuleTable

theorem target_of_silent (silent : e.component = none) : target scope components owner e = .ok (some owner) := by
  unfold target
  rw [silent]

theorem target_perComponent (wanted : e.component = some ref) :
    target .perComponent components owner e = .ok (if ref.refersTo owner then some owner else none) := by
  unfold target
  rw [wanted]

/-- In a single file the component that a rule names must be found. -/
theorem target_single_eq_ok (wanted : e.component = some ref) :
    target .single components owner e = .ok found ↔ ∃ c, found = some c ∧ ref.Finds components c := by
  unfold target
  rw [wanted]
  -- a name can be ambiguous, which an id cannot
  cases ref with
  | byName name =>
    simp only [ComponentRef.Finds, ← Component.named?_eq_some_iff]
    cases Component.named? components name with
    | error fault =>
      constructor
      · intro h
        cases h
      · rintro ⟨c, -, h⟩
        cases h
    | ok looked =>
      cases looked with
      | none =>
        constructor
        · intro h
          cases h
        · rintro ⟨c, -, h⟩
          cases h
      | some d =>
        constructor
        · intro h
          cases h
          exact ⟨d, rfl, rfl⟩
        · rintro ⟨c, rfl, h⟩
          cases h
          rfl
  | byId id =>
    dsimp only [ComponentRef.Finds]
    cases components.find? (·.id == id) with
    | none => simp
    | some d => simp [eq_comm]

/-- A component is looked up for every rule, unless a single file names what is not one component. -/
theorem exists_target_iff :
    (∃ found, target scope components owner e = .ok found) ↔ e.IsSettled scope components := by
  unfold RuleEntry.IsSettled
  cases wanted : e.component with
  | none => simp [target_of_silent wanted]
  | some ref =>
    cases scope with
    | perComponent => simp [target_perComponent wanted]
    | single => simp [target_single_eq_ok wanted, ComponentRef.exists_finds_iff]

/-- A rule is for the component that is found, and for none when none is. -/
theorem boundTo_iff (done : target scope components owner e = .ok found) :
    e.BoundTo scope components owner id ↔ ∃ c, found = some c ∧ c.id = id := by
  cases wanted : e.component with
  | none =>
    rw [target_of_silent wanted] at done
    cases done
    simp [RuleEntry.boundTo_of_silent wanted]
  | some ref =>
    cases scope with
    | perComponent =>
      rw [target_perComponent wanted] at done
      cases done
      rw [RuleEntry.boundTo_perComponent wanted]
      cases ref.refersTo owner <;> simp
    | single =>
      obtain ⟨c, rfl, finds⟩ := (target_single_eq_ok wanted).1 done
      obtain ⟨⟨there, names⟩, others⟩ := ComponentRef.names_of_finds finds
      rw [RuleEntry.boundTo_single wanted]
      constructor
      · rintro ⟨d, among, named, same⟩
        exact ⟨c, rfl, (others d among named).symm.trans same⟩
      · rintro ⟨_, h, same⟩
        cases h
        exact ⟨c, there, names, same⟩

end RuleTable

end SandboxFetch
