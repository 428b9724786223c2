/-
  SandboxFetch.Proofs.LoadRule.Holders — rules that name the component that holds their file.

  A single file looks a name up among the components, and white space at the edges of either name means
  nothing. Among several files a name is compared with that of the holder, and there only the white
  space of the rule's name means nothing (`refersTo_byName`). So a rule that names the holder of its
  file is for the holder in both cases, as long as the holder's own name has no white space at its edges
  (`heedsHolders`). With such white space the rule is passed over among several files, and the component
  is loaded as if there were no rule (`not_heeded_padded`).
-/

import SandboxFetch.Proofs.LoadRule.Merging

namespace SandboxFetch

variable {components : List Component} {owner : Component} {e : RuleEntry} {name : String} {t : RuleTable}

def Component.IsTrimmed (c : Component) : Prop := Text.trim c.name = c.name

instance (c : Component) : Decidable c.IsTrimmed := inferInstanceAs (Decidable (_ = _))

/-- A name that means a component is compared with the name of it as it stands. -/
theorem ComponentRef.refersTo_byName (named : owner.isNamed name = true) :
    (ComponentRef.byName name).refersTo owner = true ↔ owner.IsTrimmed := by
  have same : Text.trim owner.name = Text.trim name := beq_iff_eq.1 named
  unfold refersTo Component.IsTrimmed
  rw [same, beq_iff_eq]

namespace RuleEntry

/-- A rule names the holder of its file by a name that means the holder among some components. -/
def NamesHolder (components : List Component) (owner : Component) (e : RuleEntry) : Prop :=
  ∃ name, e.component = some (.byName name) ∧ Component.named? components name = .ok (some owner)

end RuleEntry

namespace RuleTable

variable (names : e.NamesHolder components owner)

include names

theorem addEntry_single_holder : addEntry .single components owner t e = .ok (t.add owner e.path) := by
  obtain ⟨name, wanted, found⟩ := names
  have looked : target .single components owner e = .ok (some owner) :=
    (target_single_eq_ok wanted).2 ⟨owner, rfl, Component.named?_eq_some_iff.1 found⟩
  unfold addEntry
  rw [looked]
  rfl

theorem addEntry_perComponent_holder : addEntry .perComponent components owner t e =
    .ok (if owner.IsTrimmed then t.add owner e.path else t) := by
  obtain ⟨name, wanted, found⟩ := names
  have named : owner.isNamed name = true := Component.isNamed_of_named? found
  unfold addEntry
  rw [target_perComponent wanted]
  by_cases trimmed : owner.IsTrimmed
  · rw [if_pos ((ComponentRef.refersTo_byName named).2 trimmed), if_pos trimmed]
    rfl
  · rw [if_neg fun refers => trimmed ((ComponentRef.refersTo_byName named).1 refers), if_neg trimmed]
    rfl

/-- Without white space at the edges of the holder's name, the rule does the same in both cases. -/
theorem addEntry_alike (trimmed : owner.IsTrimmed) :
    addEntry .perComponent components owner t e = addEntry .single components owner t e := by
  rw [addEntry_perComponent_holder names, if_pos trimmed, addEntry_single_holder names]

omit names

/-! ## References -/

variable {r : RuleReference} {file : RuleFile} {entries : List RuleEntry}

structure HeedsHolder (r : RuleReference) (components : List Component) (file : RuleFile) (entries : List RuleEntry)
    (e : RuleEntry) : Prop where
  /-- In a single file the rule is for the holder. -/
  single : ∀ t, addEntry .single components file.owner t e = .ok (t.add file.owner e.path)
  /-- In the reference it does the same when the name of the holder has no white space at its edges, -/
  heeded : file.owner.IsTrimmed →
    ∀ t, addEntry r.scope components file.owner t e = addEntry .single components file.owner t e
  /-- so that the holder selects what the rule does. -/
  selected : file.owner.IsTrimmed → ∀ t, ofReference r components = .ok t →
    ∀ path, (LoadScope.paths [e.path]).includes path = true → t.Selects file.owner.id path
  /-- Otherwise the file is taken as if the rule were not in it. -/
  ignored : ¬ file.owner.IsTrimmed → ∀ t, addFile r.scope components t file =
    (entries.filter (· != e)).foldlM (addEntry r.scope components file.owner) t

theorem heedsHolder (several : r.scope = .perComponent) (member : file ∈ r.files) (read : entriesOf file = .ok entries)
    (there : e ∈ entries) (names : e.NamesHolder components file.owner) :
    HeedsHolder r components file entries e where
  single _ := addEntry_single_holder names
  heeded trimmed t := by
    rw [several]
    exact addEntry_alike names trimmed
  selected trimmed t done path takes := by
    obtain ⟨name, wanted, found⟩ := names
    have named : file.owner.isNamed name = true := Component.isNamed_of_named? found
    refine (selects_ofReference done).2 ⟨file, member, entries, read, e, there, ?_, takes⟩
    exact .holder several wanted ((ComponentRef.refersTo_byName named).2 trimmed) rfl
  ignored padded t := by
    unfold addFile
    rw [read]
    refine (foldlM_filter fun a _ left s => ?_).symm
    rw [show a = e by simpa using left, several, addEntry_perComponent_holder names, if_neg padded]

/-- Files whose rules name their holder or nothing are taken as single files are, when the names of the
    holders have no white space at their edges. -/
theorem ofReference_single (several : r.scope = .perComponent) (trimmed : ∀ file ∈ r.files, file.owner.IsTrimmed)
    (own : ∀ file ∈ r.files, ∀ entries, entriesOf file = .ok entries →
      ∀ e ∈ entries, e.component = none ∨ e.NamesHolder components file.owner) :
    ofReference r components = ofReference { r with scope := .single } components := by
  refine foldlM_congr fun file member t => ?_
  unfold addFile
  cases read : entriesOf file with
  | error fault => rfl
  | ok entries =>
    refine foldlM_congr fun e there t => ?_
    rw [several]
    rcases own file member entries read e there with silent | names
    · unfold addEntry
      rw [target_of_silent silent, target_of_silent silent]
    · exact addEntry_alike names (trimmed file member)

/-- Among several files a rule that names the holder of its file is for the holder, as in a single file,
    just when the name of the holder has no white space at its edges. -/
theorem heedsHolders (r : RuleReference) (components : List Component) (several : r.scope = .perComponent) :
    (∀ file ∈ r.files, ∀ entries, entriesOf file = .ok entries → ∀ e ∈ entries,
      e.NamesHolder components file.owner → HeedsHolder r components file entries e) ∧
    ((∀ file ∈ r.files, file.owner.IsTrimmed) →
      (∀ file ∈ r.files, ∀ entries, entriesOf file = .ok entries → ∀ e ∈ entries,
        e.component = none ∨ e.NamesHolder components file.owner) →
      ofReference r components = ofReference { r with scope := .single } components) :=
  ⟨fun _ member _ read _ there names => heedsHolder several member read there names, ofReference_single several⟩

/-! ## A holder with white space at the edges of its name -/

def coreMarkup : String :=
  "<sourceControlLoadRule><parentLoadRule><component name=\"core\"/>" ++
    "<parentFolder repositoryPath=\"/src\"/></parentLoadRule></sourceControlLoadRule>"

def coreRule : RuleEntry := ⟨some (.byName "core"), "/src"⟩

def twoHolders (scope : RuleScope) (holder : Component) : RuleReference where
  format := .lines
  scope := scope
  files := [⟨⟨some "core", "core.loadrule"⟩, holder, .xml, coreMarkup⟩, lineFile ⟨"_c2", "plain"⟩ "RootFolderName=doc"]

theorem entriesOf_coreMarkup (spec : RuleFileSpec) (holder : Component) :
    entriesOf ⟨spec, holder, .xml, coreMarkup⟩ = .ok [coreRule] := by
  have read : LoadRule.Markup.read coreMarkup = .ok [coreRule] := by decide +kernel
  unfold entriesOf
  simp only [read]
  rfl

theorem ofReference_twoHolders (scope : RuleScope) (holder : Component) (components : List Component) :
    ofReference (twoHolders scope holder) components =
      (addEntry scope components holder {} coreRule >>= fun t =>
        addFile scope components t (lineFile ⟨"_c2", "plain"⟩ "RootFolderName=doc")) := by
  have first : addFile scope components {} ⟨⟨some "core", "core.loadrule"⟩, holder, .xml, coreMarkup⟩ =
      addEntry scope components holder {} coreRule := by
    unfold addFile
    rw [entriesOf_coreMarkup]
    exact bind_pure (addEntry scope components holder {} coreRule)
  unfold ofReference twoHolders
  simp only [List.foldlM_cons, first, List.foldlM_nil, bind_pure]

theorem heedsHolders_trimmed : ∃ t,
    ofReference (twoHolders .perComponent ⟨"_c1", "core"⟩) [⟨"_c1", "core"⟩, ⟨"_c2", "plain"⟩] = .ok t ∧
    t.Selects "_c1" "src/a" := by
  have done : ofReference (twoHolders .perComponent ⟨"_c1", "core"⟩) [⟨"_c1", "core"⟩, ⟨"_c2", "plain"⟩] =
      .ok ⟨[⟨⟨"_c1", "core"⟩, ["src"]⟩, ⟨⟨"_c2", "plain"⟩, ["doc"]⟩]⟩ := by
    rw [ofReference_twoHolders]
    decide +kernel
  have names : coreRule.NamesHolder [⟨"_c1", "core"⟩, ⟨"_c2", "plain"⟩] ⟨"_c1", "core"⟩ :=
    ⟨"core", rfl, by decide +kernel⟩
  obtain ⟨heeds, -⟩ := heedsHolders (twoHolders .perComponent ⟨"_c1", "core"⟩) [⟨"_c1", "core"⟩, ⟨"_c2", "plain"⟩] rfl
  have heeded := heeds _ List.mem_cons_self _ (entriesOf_coreMarkup _ _) _ List.mem_cons_self names
  exact ⟨_, done, heeded.selected (by decide +kernel) _ done _ (by decide +kernel)⟩

/-- The name `core` means the component ` core `, which holds the file. As a single file it has the rule,
    and among several it is lost. -/
theorem not_heeded_padded :
    Component.named? [⟨"_c1", " core "⟩, ⟨"_c2", "plain"⟩] "core" = .ok (some ⟨"_c1", " core "⟩) ∧
    ofReference (twoHolders .single ⟨"_c1", " core "⟩) [⟨"_c1", " core "⟩, ⟨"_c2", "plain"⟩] =
      .ok ⟨[⟨⟨"_c1", " core "⟩, ["src"]⟩, ⟨⟨"_c2", "plain"⟩, ["doc"]⟩]⟩ ∧
    ofReference (twoHolders .perComponent ⟨"_c1", " core "⟩) [⟨"_c1", " core "⟩, ⟨"_c2", "plain"⟩] =
      .ok ⟨[⟨⟨"_c2", "plain"⟩, ["doc"]⟩]⟩ := by
  rw [ofReference_twoHolders, ofReference_twoHolders]
  decide +kernel

end RuleTable

end SandboxFetch
