/-
  SandboxFetch.Proofs.LoadRule.Merging — the table of a reference as the union of its rules.

  A path that is added for a component joins the entry of that component, or makes a new one at the
  end (`find?_addTo`). So a component never has two entries (`RuleTable.Sound`), and after an addition
  it selects what it did and what the path takes in (`selects_add`). Over the rules of a file and the
  files of a reference, a component selects just what some rule for it selects, whatever the order
  (`ofReference_merges`).
-/

import Mathlib.Data.List.Nodup
import SandboxFetch.Proofs.LoadRule.Binding

namespace SandboxFetch

variable {scope : RuleScope} {components : List Component} {owner c : Component} {e : RuleEntry} {id : ItemId}
  {selection path : String} {rule : ComponentRule} {rules : List ComponentRule} {t t' : RuleTable} {file : RuleFile}
  {files : List RuleFile}

/-! ## One entry -/

theorem LoadScope.includes_append {selections others : List String} :
    (paths (selections ++ others)).includes path = true ↔
      (paths selections).includes path = true ∨ (paths others).includes path = true := by
  simp only [includes, List.any_append, Bool.or_eq_true]

theorem LoadScope.includes_bare : (paths [barePath selection]).includes path = (paths [selection]).includes path := by
  simp only [includes, List.any_cons, List.any_nil, bareChars_barePath]

namespace ComponentRule

def plus (rule : ComponentRule) (selection : String) : ComponentRule :=
  { rule with selections := if selection ∈ rule.selections then rule.selections else rule.selections ++ [selection] }

@[simp] theorem component_plus : (rule.plus selection).component = rule.component := rfl

theorem includes_plus : (LoadScope.paths (rule.plus selection).selections).includes path = true ↔
    (LoadScope.paths rule.selections).includes path = true ∨ (LoadScope.paths [selection]).includes path = true := by
  unfold plus
  split
  · next there =>
    -- the path is among the selections, so it takes in nothing that they do not
    refine (or_iff_left_of_imp fun takes => ?_).symm
    simp only [LoadScope.includes, List.any_cons, List.any_nil, Bool.or_false] at takes
    exact List.any_eq_true.2 ⟨selection, there, takes⟩
  · exact LoadScope.includes_append

def IsBare (selection : String) : Prop := selection.toList.head? ≠ some '/' ∧ selection.toList.getLast? ≠ some '/'

theorem isBare_barePath (selection : String) : IsBare (barePath selection) := by
  unfold IsBare barePath bareChars
  rw [String.toList_ofList]
  constructor
  · intro first
    exact absurd (Text.not_of_mem_ends.1 _ first) (by decide)
  · intro last
    exact absurd (Text.not_of_mem_ends.2 _ last) (by decide)

/-- The selections of an entry: at least one, none twice, and all without separators at their ends. -/
structure Tidy (rule : ComponentRule) : Prop where
  some : rule.selections ≠ []
  distinct : rule.selections.Nodup
  bare : ∀ s ∈ rule.selections, IsBare s

theorem tidy_plus (tidy : rule.Tidy) (bare : IsBare selection) : (rule.plus selection).Tidy := by
  unfold plus
  split
  · exact tidy
  · next new =>
    refine ⟨by simp, tidy.distinct.append (List.nodup_singleton _) (by simpa using new), fun s member => ?_⟩
    rcases List.mem_append.1 member with old | added
    · exact tidy.bare s old
    · exact List.mem_singleton.1 added ▸ bare

theorem tidy_single (bare : IsBare selection) : (⟨c, [selection]⟩ : ComponentRule).Tidy :=
  ⟨by simp, List.nodup_singleton _, by simpa using bare⟩

end ComponentRule

/-! ## Tables -/

namespace RuleTable

theorem addTo_cons : addTo c selection (rule :: rules) =
    if rule.component.id = c.id then rule.plus selection :: rules else rule :: addTo c selection rules := rfl

/-- An addition changes the entry of its component and no other. -/
theorem find?_addTo : (addTo c selection rules).find? (·.component.id == id) =
    if c.id = id then
      some (match rules.find? (·.component.id == id) with
        | some rule => rule.plus selection
        | none => ⟨c, [selection]⟩)
    else rules.find? (·.component.id == id) := by
  induction rules with
  | nil =>
    by_cases own : c.id = id
    · simp [addTo, own]
    · simp [addTo, own]
  | cons rule rest ih =>
    rw [addTo_cons]
    by_cases same : rule.component.id = c.id
    · rw [if_pos same, List.find?_cons, List.find?_cons, ComponentRule.component_plus, same]
      by_cases own : c.id = id
      · simp [own]
      · simp [own, beq_eq_false_iff_ne.2 own]
    · rw [if_neg same, List.find?_cons, ih, List.find?_cons]
      by_cases here : rule.component.id = id
      · have other : c.id ≠ id := fun own => same (here.trans own.symm)
        simp [here, other]
      · simp [beq_eq_false_iff_ne.2 here]

theorem ids_addTo : (addTo c selection rules).map (·.component.id) =
    if c.id ∈ rules.map (·.component.id) then rules.map (·.component.id)
    else rules.map (·.component.id) ++ [c.id] := by
  induction rules with
  | nil => rfl
  | cons rule rest ih =>
    rw [addTo_cons]
    by_cases same : rule.component.id = c.id
    · simp [same]
    · simp only [if_neg same, List.map_cons, ih, List.mem_cons, Ne.symm same, false_or]
      split
      · rfl
      · rfl

theorem tidy_addTo (tidy : ∀ rule ∈ rules, rule.Tidy) (bare : ComponentRule.IsBare selection) :
    ∀ rule ∈ addTo c selection rules, rule.Tidy := by
  induction rules with
  | nil =>
    intro rule member
    rw [List.mem_singleton.1 member]
    exact ComponentRule.tidy_single bare
  | cons rule rest ih =>
    obtain ⟨first, others⟩ := List.forall_mem_cons.1 tidy
    rw [addTo_cons]
    split
    · exact List.forall_mem_cons.2 ⟨ComponentRule.tidy_plus first bare, others⟩
    · exact List.forall_mem_cons.2 ⟨first, ih others⟩

/-- No component has two entries, and each is tidy. -/
structure Sound (t : RuleTable) : Prop where
  once : (t.rules.map (·.component.id)).Nodup
  tidy : ∀ rule ∈ t.rules, rule.Tidy

theorem sound_empty : ({} : RuleTable).Sound := ⟨List.nodup_nil, fun _ member => (nomatch member)⟩

theorem Sound.add (sound : t.Sound) : (t.add c path).Sound where
  once := by
    show ((addTo c (barePath path) t.rules).map (·.component.id)).Nodup
    rw [ids_addTo]
    split
    · exact sound.once
    · next new => exact sound.once.append (List.nodup_singleton _) (by simpa using new)
  tidy := tidy_addTo sound.tidy (ComponentRule.isBare_barePath path)

def Selects (t : RuleTable) (id : ItemId) (path : String) : Prop :=
  ∃ rule, t.forComponent? id = some rule ∧ (LoadScope.paths rule.selections).includes path = true

theorem not_selects_empty : ¬ ({} : RuleTable).Selects id path := by
  rintro ⟨rule, found, -⟩
  cases found

theorem selects_add : (t.add c selection).Selects id path ↔
    t.Selects id path ∨ (c.id = id ∧ (LoadScope.paths [selection]).includes path = true) := by
  unfold Selects forComponent? add
  rw [find?_addTo, ← LoadScope.includes_bare]
  by_cases own : c.id = id
  · cases t.rules.find? (·.component.id == id) with
    | none => simp [own]
    | some rule => simp [own, ComponentRule.includes_plus]
  · simp [own]

/-! ## Rules -/

theorem addEntry_eq_ok (done : addEntry scope components owner t e = .ok t') :
    ∃ found, target scope components owner e = .ok found ∧
      ((found = none ∧ t' = t) ∨ ∃ c, found = some c ∧ t' = t.add c e.path) := by
  obtain ⟨found, looked, done⟩ := ok_of_bind done
  refine ⟨found, looked, ?_⟩
  cases found with
  | none =>
    cases done
    exact .inl ⟨rfl, rfl⟩
  | some c =>
    cases done
    exact .inr ⟨c, rfl, rfl⟩

theorem exists_addEntry_iff : (∃ t', addEntry scope components owner t e = .ok t') ↔ e.IsSettled scope components := by
  rw [← exists_target_iff]
  constructor
  · rintro ⟨t', done⟩
    obtain ⟨found, looked, -⟩ := addEntry_eq_ok done
    exact ⟨found, looked⟩
  · rintro ⟨found, looked⟩
    unfold addEntry
    rw [looked]
    cases found with
    | none => exact ⟨_, rfl⟩
    | some c => exact ⟨_, rfl⟩

theorem sound_addEntry (sound : t.Sound) (done : addEntry scope components owner t e = .ok t') : t'.Sound := by
  obtain ⟨_, -, ⟨-, rfl⟩ | ⟨c, -, rfl⟩⟩ := addEntry_eq_ok done
  · exact sound
  · exact sound.add

/-- A rule adds what it selects to the component that it is for. -/
theorem selects_addEntry (done : addEntry scope components owner t e = .ok t') : t'.Selects id path ↔
    t.Selects id path ∨
      (e.BoundTo scope components owner id ∧ (LoadScope.paths [e.path]).includes path = true) := by
  obtain ⟨_, looked, ⟨rfl, rfl⟩ | ⟨c, rfl, rfl⟩⟩ := addEntry_eq_ok done
  · simp [boundTo_iff looked]
  · simp [boundTo_iff looked, selects_add]

end RuleTable

/-! ## Files -/

namespace RuleFile

/-- A file can be read, and in a single file every rule names no component or one. -/
def IsSettled (scope : RuleScope) (components : List Component) (file : RuleFile) : Prop :=
  ∃ entries, RuleTable.entriesOf file = .ok entries ∧ ∀ e ∈ entries, e.IsSettled scope components

def Selects (scope : RuleScope) (components : List Component) (file : RuleFile) (id : ItemId) (path : String) : Prop :=
  ∃ entries, RuleTable.entriesOf file = .ok entries ∧
    ∃ e ∈ entries, e.BoundTo scope components file.owner id ∧ (LoadScope.paths [e.path]).includes path = true

end RuleFile

namespace RuleTable

theorem exists_addFile_iff : (∃ t', addFile scope components t file = .ok t') ↔ file.IsSettled scope components := by
  unfold addFile RuleFile.IsSettled
  cases entriesOf file with
  | error fault =>
    constructor
    · rintro ⟨t', done⟩
      cases done
    · rintro ⟨entries, read, -⟩
      cases read
  | ok entries =>
    have all : (∃ t', entries.foldlM (addEntry scope components file.owner) t = .ok t') ↔
        ∀ e ∈ entries, e.IsSettled scope components := exists_foldlM_iff fun _ _ => exists_addEntry_iff
    exact all.trans (by simp)

theorem sound_addFile (sound : t.Sound) (done : addFile scope components t file = .ok t') : t'.Sound := by
  obtain ⟨entries, -, done⟩ := ok_of_bind done
  exact foldlM_keeps done (fun _ _ _ => sound_addEntry) sound

theorem selects_addFile (done : addFile scope components t file = .ok t') : t'.Selects id path ↔
    t.Selects id path ∨ file.Selects scope components id path := by
  obtain ⟨entries, read, done⟩ := ok_of_bind done
  rw [foldlM_adds done fun _ _ _ => selects_addEntry]
  simp [RuleFile.Selects, read]

/-! ## References -/

variable {r : RuleReference}

/-- A reference is resolved just when each of its files is. -/
theorem exists_ofReference_iff :
    (∃ t, ofReference r components = .ok t) ↔ ∀ file ∈ r.files, file.IsSettled r.scope components :=
  exists_foldlM_iff fun _ _ => exists_addFile_iff

theorem sound_ofReference (done : ofReference r components = .ok t) : t.Sound :=
  foldlM_keeps done (fun _ _ _ => sound_addFile) sound_empty

theorem selects_ofReference (done : ofReference r components = .ok t) :
    t.Selects id path ↔ ∃ file ∈ r.files, file.Selects r.scope components id path := by
  unfold ofReference at done
  rw [foldlM_adds done fun _ _ _ => selects_addFile]
  simp [not_selects_empty]

structure Merges (r : RuleReference) (components : List Component) (t : RuleTable) : Prop where
  /-- A component has at most one entry, with different paths that have no separators at their ends. -/
  sound : t.Sound
  /-- A component selects a path just when a rule for it does. -/
  selects : ∀ id path, t.Selects id path ↔
    ∃ file ∈ r.files, ∃ entries, entriesOf file = .ok entries ∧
      ∃ e ∈ entries, e.BoundTo r.scope components file.owner id ∧ (LoadScope.paths [e.path]).includes path = true
  /-- In whatever order the files stand, the components select the same paths. -/
  reordered : ∀ files, files.Perm r.files → ∃ t', ofReference { r with files } components = .ok t' ∧
    ∀ id path, t'.Selects id path ↔ t.Selects id path

theorem merges_of_ofReference (done : ofReference r components = .ok t) : Merges r components t where
  sound := sound_ofReference done
  selects _ _ := selects_ofReference done
  reordered files same := by
    have settled : ∀ file ∈ files, file.IsSettled r.scope components := fun file member =>
      exists_ofReference_iff.1 ⟨t, done⟩ file (same.mem_iff.1 member)
    obtain ⟨t', done'⟩ : ∃ t', ofReference { r with files } components = .ok t' := exists_ofReference_iff.2 settled
    refine ⟨t', done', fun id path => ?_⟩
    rw [selects_ofReference done, selects_ofReference done']
    simp only [same.mem_iff]

/-- The files of a reference make a table just when each can be read and, in a single file, every name
    and id means one component; the table is then the union of the rules. -/
theorem ofReference_merges (r : RuleReference) (components : List Component) :
    ((∃ t, ofReference r components = .ok t) ↔ ∀ file ∈ r.files, ∃ entries, entriesOf file = .ok entries ∧
      ∀ e ∈ entries, e.IsSettled r.scope components) ∧
    ∀ t, ofReference r components = .ok t → Merges r components t :=
  ⟨exists_ofReference_iff, fun _ done => merges_of_ofReference done⟩

/-! ## Two files of one component -/

def lineFile (holder : Component) (content : String) : RuleFile :=
  ⟨⟨some holder.name, "load.rules"⟩, holder, .lines, content⟩

def twoLineFiles : RuleReference where
  format := .lines
  scope := .perComponent
  files := ["RootFolderName=/src", "RootFolderName=doc/"].map (lineFile ⟨"_c1", "core"⟩)

/-- The order of the files shows in the table, and not in what the component selects. -/
theorem ofReference_merges_twoLineFiles : ∃ t t',
    ofReference twoLineFiles [] = .ok t ∧ t.rules.map (·.selections) = [["src", "doc"]] ∧
    ofReference { twoLineFiles with files := twoLineFiles.files.reverse } [] = .ok t' ∧ t' ≠ t ∧
    ∀ id path, t'.Selects id path ↔ t.Selects id path := by
  have done : ofReference twoLineFiles [] = .ok ⟨[⟨⟨"_c1", "core"⟩, ["src", "doc"]⟩]⟩ := by decide +kernel
  have other : ofReference { twoLineFiles with files := twoLineFiles.files.reverse } [] =
      .ok ⟨[⟨⟨"_c1", "core"⟩, ["doc", "src"]⟩]⟩ := by decide +kernel
  obtain ⟨t', done', same⟩ := ((ofReference_merges twoLineFiles []).2 _ done).reordered _ (List.reverse_perm _)
  cases other.symm.trans done'
  exact ⟨_, _, done, rfl, done', by decide, same⟩

end RuleTable

end SandboxFetch
