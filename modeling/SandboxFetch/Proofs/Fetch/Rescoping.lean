/-
  SandboxFetch.Proofs.Fetch.Rescoping — which accepted change sets are counted as discarded.

  A request covers a change set of one of its components that changes nothing, or that has a change
  whose best known path is in the scope of the component (`covers_of_entry`). What it does not cover
  goes behind the discarded change sets; both lists keep their order and nothing else is touched
  (`rescope_eq`).

  The best known path is not all that a change set touches. One that moves a file out of the scope is
  left out though it touches the scope, and so is one of a component that is loaded in full when no
  path of it is known. These two kinds are all that is left out of the scope of its component
  without being outside it (`rescopes`, `not_excludes_rescoped`).
-/

import SandboxFetch.Fetch.Running
import SandboxFetch.Proofs.Timestamp.Text

namespace SandboxFetch

variable {r : LoadRequest} {c : ChangeSet} {change : Change} {scope : LoadScope} {e : LoadEntry}

/-! ## Changes and scopes -/

/-- A change has a path in a scope, on either side. -/
def Change.Touches (change : Change) (scope : LoadScope) : Prop :=
  ∃ path, (change.before.path = some path ∨ change.after.path = some path) ∧ scope.includes path = true

/-- A change moves its versionable out of a scope. -/
def Change.Leaves (change : Change) (scope : LoadScope) : Prop :=
  ∃ path new, change.before.path = some path ∧ change.after.path = some new ∧
    scope.includes path = true ∧ scope.includes new = false

namespace Change

/-- No path of a change is known just when neither side tells one. -/
theorem path?_eq_none : change.path? = none ↔ change.before.path = none ∧ change.after.path = none := by
  unfold path?
  cases change.after.path <;> simp

theorem Leaves.touches (leaves : change.Leaves scope) : change.Touches scope := by
  obtain ⟨path, -, before, -, included, -⟩ := leaves
  exact ⟨path, .inl before, included⟩

/-- A change with a path in a scope either has its best path there or leaves the scope. -/
theorem Touches.best (touched : change.Touches scope) :
    (∃ path ∈ change.path?, scope.includes path = true) ∨ change.Leaves scope := by
  obtain ⟨path, before | after, included⟩ := touched
  · cases later : change.after.path with
    | none => exact .inl ⟨path, by rw [path?, later, before]; rfl, included⟩
    | some new =>
      cases stays : scope.includes new with
      | true => exact .inl ⟨new, by rw [path?, later]; rfl, stays⟩
      | false => exact .inr ⟨path, new, before, later, included, stays⟩
  · exact .inl ⟨path, by rw [path?, after]; rfl, included⟩

end Change

/-! ## What a request covers -/

namespace LoadRequest

theorem covers_of_none (missing : r.entryFor? c.component.id = none) : r.covers c = false := by
  unfold covers
  rw [missing]

theorem covers_of_entry (found : r.entryFor? c.component.id = some e) : r.covers c = true ↔
    c.changes = [] ∨ ∃ change ∈ c.changes, ∃ path ∈ change.path?, e.scope.includes path = true := by
  unfold covers
  rw [found]
  simp only [Bool.or_eq_true, List.isEmpty_iff, List.any_eq_true, List.mem_filterMap]
  refine or_congr_right ⟨?_, ?_⟩
  · rintro ⟨path, ⟨change, member, known⟩, included⟩
    exact ⟨change, member, path, known, included⟩
  · rintro ⟨change, member, path, known, included⟩
    exact ⟨path, ⟨change, member, known⟩, included⟩

theorem not_covers_of_entry (found : r.entryFor? c.component.id = some e) : r.covers c = false ↔
    c.changes ≠ [] ∧ ∀ change ∈ c.changes, ∀ path ∈ change.path?, e.scope.includes path = false := by
  rw [← Bool.not_eq_true, covers_of_entry found, not_or]
  refine and_congr_right' ⟨fun outside change member path known => ?_, ?_⟩
  · rw [← Bool.not_eq_true]
    exact fun included => outside ⟨change, member, path, known, included⟩
  · rintro outside ⟨change, member, path, known, included⟩
    rw [outside change member path known] at included
    cases included

end LoadRequest

/-! ## Outside and misplaced -/

namespace LoadRequest

/-- A change set is outside what a request loads: its component is not requested, or only some of its
    paths are and the change set has no path among them. -/
def Excludes (r : LoadRequest) (c : ChangeSet) : Prop :=
  r.entryFor? c.component.id = none ∨
    ∃ e, r.entryFor? c.component.id = some e ∧ e.scope ≠ .full ∧ ∀ change ∈ c.changes, ¬ change.Touches e.scope

/-- A change set is not covered though it is not outside: its component is loaded in full and no path of
    its changes is known, or it has something in the scope, and only to move it out. -/
def Misplaces (r : LoadRequest) (c : ChangeSet) : Prop :=
  ∃ e, r.entryFor? c.component.id = some e ∧
    (e.scope = .full ∧ c.changes ≠ [] ∧ (∀ change ∈ c.changes, change.path? = none) ∨
      e.scope ≠ .full ∧ (∃ change ∈ c.changes, change.Leaves e.scope) ∧
        ∀ change ∈ c.changes, ∀ path ∈ change.path?, e.scope.includes path = false)

/-- A component that is loaded in full takes in every path. -/
theorem not_covers_of_full (found : r.entryFor? c.component.id = some e) (full : e.scope = .full) :
    r.covers c = false ↔ c.changes ≠ [] ∧ ∀ change ∈ c.changes, change.path? = none := by
  rw [not_covers_of_entry found, full]
  refine and_congr_right' ⟨fun outside change member => ?_, fun unknown change member path known => ?_⟩
  · rw [Option.eq_none_iff_forall_not_mem]
    intro path known
    cases outside change member path known
  · rw [unknown change member] at known
    cases known

/-- What touches the scope in a change set that is not covered leaves it. -/
theorem leaves_of_touches (found : r.entryFor? c.component.id = some e) (moved : r.covers c = false)
    (member : change ∈ c.changes) (touched : change.Touches e.scope) : change.Leaves e.scope := by
  rcases touched.best with ⟨path, known, included⟩ | leaves
  · rw [((not_covers_of_entry found).1 moved).2 change member path known] at included
    cases included
  · exact leaves

theorem misplaces_iff : r.Misplaces c ↔ r.covers c = false ∧ ¬ r.Excludes c := by
  constructor
  · rintro ⟨e, found, ⟨full, changed, unknown⟩ | ⟨partly, ⟨change, member, leaves⟩, outside⟩⟩
    · refine ⟨(not_covers_of_full found full).2 ⟨changed, unknown⟩, ?_⟩
      rintro (missing | ⟨e', found', partly, -⟩)
      · cases found.symm.trans missing
      · cases found.symm.trans found'
        exact partly full
    · refine ⟨(not_covers_of_entry found).2 ⟨List.ne_nil_of_mem member, outside⟩, ?_⟩
      rintro (missing | ⟨e', found', -, untouched⟩)
      · cases found.symm.trans missing
      · cases found.symm.trans found'
        exact untouched change member leaves.touches
  · rintro ⟨moved, inside⟩
    obtain ⟨there, touched⟩ := not_or.1 inside
    obtain ⟨e, found⟩ := Option.ne_none_iff_exists'.1 there
    refine ⟨e, found, ?_⟩
    by_cases full : e.scope = .full
    · obtain ⟨changed, unknown⟩ := (not_covers_of_full found full).1 moved
      exact .inl ⟨full, changed, unknown⟩
    · have some_touch : ∃ change ∈ c.changes, change.Touches e.scope :=
        Classical.byContradiction fun none =>
          touched ⟨e, found, full, fun change member touch => none ⟨change, member, touch⟩⟩
      obtain ⟨change, member, touch⟩ := some_touch
      exact .inr ⟨full, ⟨change, member, leaves_of_touches found moved member touch⟩,
        ((not_covers_of_entry found).1 moved).2⟩

end LoadRequest

/-! ## Rescoping -/

namespace AcceptOutcome

theorem rescope_eq (o : AcceptOutcome) (r : LoadRequest) : o.rescope r =
    { o with
      accepted := o.accepted.filter r.covers
      discarded := o.discarded ++ o.accepted.filter fun c => !r.covers c } := by
  unfold rescope
  rw [List.partition_eq_filter_filter]
  rfl

theorem rescope_rescope (o : AcceptOutcome) (r : LoadRequest) : (o.rescope r).rescope r = o.rescope r := by
  have none : (o.accepted.filter r.covers).filter (fun c => !r.covers c) = [] := by
    rw [List.filter_eq_nil_iff]
    intro c member
    rw [(List.mem_filter.1 member).2]
    exact Bool.false_ne_true
  rw [rescope_eq (o.rescope r), rescope_eq o, none, List.append_nil, List.filter_filter]
  simp only [Bool.and_self]

end AcceptOutcome

structure Rescopes (r : LoadRequest) (o o' : AcceptOutcome) : Prop where
  accepted : o'.accepted = o.accepted.filter r.covers
  discarded : o'.discarded = o.discarded ++ o.accepted.filter fun c => !r.covers c
  componentChanges : o'.componentChanges = o.componentChanges
  baseline : o'.baseline = o.baseline
  /-- Nothing is left to be moved. -/
  again : o'.rescope r = o'
  /-- A change set of a component that is not requested is moved, -/
  missing : ∀ c, r.entryFor? c.component.id = none → r.covers c = false
  /-- and one that is requested when it has changes and the best path of none is in the scope. -/
  outside : ∀ c e, r.entryFor? c.component.id = some e → (r.covers c = false ↔
    c.changes ≠ [] ∧ ∀ change ∈ c.changes, ∀ path ∈ change.path?, e.scope.includes path = false)
  /-- When the component is loaded in full, no path of it is known then, -/
  full : ∀ c e, r.entryFor? c.component.id = some e → e.scope = .full → (r.covers c = false ↔
    c.changes ≠ [] ∧ ∀ change ∈ c.changes, change.before.path = none ∧ change.after.path = none)
  /-- and else whatever touches the scope in it leaves the scope. -/
  leaves : ∀ c e, r.entryFor? c.component.id = some e → r.covers c = false →
    ∀ change ∈ c.changes, change.Touches e.scope → change.Leaves e.scope
  /-- In just these two ways a change set is moved that is not outside. -/
  misplaced : ∀ c, r.covers c = false → (¬ r.Excludes c ↔ r.Misplaces c)

/-- Rescoping moves the accepted change sets that the request does not cover behind the discarded ones and
    keeps everything else. -/
theorem rescopes (o : AcceptOutcome) (r : LoadRequest) : Rescopes r o (o.rescope r) where
  accepted := by rw [o.rescope_eq]
  discarded := by rw [o.rescope_eq]
  componentChanges := by rw [o.rescope_eq]
  baseline := by rw [o.rescope_eq]
  again := o.rescope_rescope r
  missing _ := LoadRequest.covers_of_none
  outside _ _ := LoadRequest.not_covers_of_entry
  full c e found full := by
    simp only [LoadRequest.not_covers_of_full found full, Change.path?_eq_none]
  leaves _ _ found moved _ := LoadRequest.leaves_of_touches found moved
  misplaced c moved := by rw [LoadRequest.misplaces_iff, and_iff_right moved]

/-! ## Moved, and not outside -/

def ofCore (scope : LoadScope) : LoadRequest := ⟨"/work", [⟨⟨"_core", "core"⟩, scope, "/work"⟩]⟩

def changing (before after : Side) : ChangeSet where
  id := "_1"
  component := ⟨"_core", "core"⟩
  comment := none
  timestamp := noonOfMay
  changes := [⟨"_file", before, after⟩]
  workItems := []

/-- A deletion whose path the server could not tell is moved though its component is loaded in full, and
    so is a move out of the only folder that is loaded. -/
theorem not_excludes_rescoped :
    (∃ c, c = changing ⟨none, some "_s1"⟩ ⟨none, none⟩ ∧
      (AcceptOutcome.rescope { accepted := [c] } (ofCore .full)).discarded = [c] ∧ ¬ (ofCore .full).Excludes c) ∧
    ∃ c, c = changing ⟨some "lib/a.txt", some "_s1"⟩ ⟨some "docs/a.txt", some "_s2"⟩ ∧
      (AcceptOutcome.rescope { accepted := [c] } (ofCore (.paths ["lib"]))).discarded = [c] ∧
      ¬ (ofCore (.paths ["lib"])).Excludes c := by
  refine ⟨⟨_, rfl, by decide, ?_⟩, ⟨_, rfl, by decide, ?_⟩⟩
  · refine (LoadRequest.misplaces_iff.1 ⟨_, rfl, .inl ⟨rfl, by decide, ?_⟩⟩).2
    decide
  · refine (LoadRequest.misplaces_iff.1 ⟨_, rfl, .inr ⟨by decide, ⟨_, List.mem_singleton_self _, ?_⟩, ?_⟩⟩).2
    · exact ⟨"lib/a.txt", "docs/a.txt", rfl, rfl, by decide, by decide⟩
    · decide

end SandboxFetch
