/-
  SandboxFetch.Proofs.LoadRule.Marks — files of rules behind a byte-order mark.

  A byte-order mark says how a text is written and is no part of what the text says. The format of a file
  is told without it (`detect_marked`), and a file in the XML format is read without it
  (`Markup.read_marked`). The line-oriented format passes over white space only, and a mark is none: the
  first line, with the mark in front, is neither blank nor a comment nor a rule, so such a file is always
  refused at that line (`Lines.read_marked`). It comes to the same as without the mark just when it is
  refused without it, too (`ofContent_marks`).
-/

import SandboxFetch.Proofs.LoadRule.Merging
import SandboxFetch.Proofs.Text.Ends

namespace SandboxFetch

variable {content : String} {spec : RuleFileSpec} {owner : Component} {components : List Component}

def marked (content : String) : String := String.singleton Text.byteOrderMark ++ content

@[simp] theorem toList_marked (content : String) : (marked content).toList = Text.byteOrderMark :: content.toList := by
  simp [marked]

theorem dropMarks_marked (content : String) :
    Text.dropMarks (marked content).toList = Text.dropMarks content.toList := by
  rw [toList_marked]
  exact List.dropWhile_cons_of_pos (beq_self_eq_true _)

theorem detect_marked (content : String) : RuleFormat.detect (marked content) = .detect content := by
  unfold RuleFormat.detect
  rw [dropMarks_marked]

namespace LoadRule

theorem Markup.read_marked (content : String) : Markup.read (marked content) = Markup.read content := by
  unfold Markup.read
  rw [dropMarks_marked]

namespace Lines

theorem dropReturn_cons {c : Char} (whole : c ≠ '\r') (piece : List Char) :
    Text.dropReturn (c :: piece) = c :: Text.dropReturn piece := by
  unfold Text.dropReturn
  cases piece with
  | nil => simp [whole]
  | cons d piece =>
    rw [List.getLast?_cons_cons, List.dropLast_cons_cons]
    split <;> rfl

/-- What starts the first line of a text starts the text, unless it ends a line. -/
theorem exists_lines_cons {c : Char} (inner : c ≠ '\n') (whole : c ≠ '\r') (cs : List Char) :
    ∃ line rest, Text.lines (c :: cs) = (c :: line) :: rest := by
  unfold Text.lines
  rw [List.splitOn_cons_eq_if_modifyHead, if_neg (by simpa using inner)]
  cases pieces : cs.splitOn '\n' with
  | nil => exact absurd pieces (List.splitOn_ne_nil _ _)
  | cons piece rest =>
    rw [List.modifyHead_cons]
    cases rest with
    | nil => exact ⟨piece, [], rfl⟩
    | cons next rest =>
      refine ⟨Text.dropReturn piece, Text.linesOfPieces (next :: rest), ?_⟩
      rw [Text.linesOfPieces, dropReturn_cons whole]
      exact nofun

/-- White space that is taken off a text is not in front of a mark. -/
theorem strip_mark (cs : List Char) :
    strip (Text.byteOrderMark :: cs) = Text.byteOrderMark :: cs.rdropWhile Text.isBlank := by
  show Text.stripEnds Text.isBlank ([Text.byteOrderMark] ++ cs) = [Text.byteOrderMark] ++ cs.rdropWhile Text.isBlank
  have plain : ∀ c ∈ some Text.byteOrderMark, Text.isBlank c = false := by
    rintro _ ⟨⟩
    decide
  exact Text.stripEnds_append (by simp) plain plain

theorem path?_mark (cs : List Char) : path? (Text.byteOrderMark :: cs) = none := by
  unfold path?
  split
  · next key value cut =>
    obtain ⟨whole, -⟩ := Text.cutAt?_eq_some cut
    have other : strip key ≠ rootFolderKey := by
      cases key with
      | nil => exact absurd (List.cons.inj whole).1 (by decide)
      | cons c key =>
        rw [← (List.cons.inj whole).1, strip_mark]
        exact fun same => absurd (List.cons.inj same).1 (by decide)
    rw [if_neg fun rule => other rule.1]
  · rfl

theorem readLine_mark (number : ℕ) (line : List Char) :
    readLine number (Text.byteOrderMark :: line) = .error (.badLine number) := by
  unfold readLine
  simp only [strip_mark, path?_mark]
  rfl

/-- A line-oriented file is refused at a mark. -/
theorem read_marked (content : String) : read (marked content) = .error (.badLine 1) := by
  obtain ⟨line, rest, lines⟩ := exists_lines_cons (c := Text.byteOrderMark) (by decide) (by decide) content.toList
  unfold read
  rw [toList_marked, lines, readFrom, readLine_mark]
  rfl

theorem silent_of_readLine {number : ℕ} {line : List Char} {rule? : Option RuleEntry}
    (done : readLine number line = .ok rule?) : ∀ e ∈ rule?.toList, e.component = none := by
  unfold readLine at done
  dsimp only at done
  split at done
  · cases done
    exact fun _ member => nomatch member
  · split at done
    · cases done
      intro e member
      rw [List.mem_singleton.1 member]
    · cases done

/-- A line never names a component. -/
theorem silent_of_readFrom {number : ℕ} {lines : List (List Char)} {entries : List RuleEntry}
    (done : readFrom number lines = .ok entries) : ∀ e ∈ entries, e.component = none := by
  induction lines generalizing number entries with
  | nil =>
    cases done
    exact fun _ member => nomatch member
  | cons line rest ih =>
    obtain ⟨rule?, first, done⟩ := ok_of_bind done
    obtain ⟨rules, more, done⟩ := ok_of_bind done
    cases done
    intro e member
    rcases List.mem_append.1 member with member | member
    · exact silent_of_readLine first e member
    · exact ih more e member

end Lines

end LoadRule

/-! ## References of one file -/

def RuleFile.ofContent (spec : RuleFileSpec) (owner : Component) (content : String) : RuleFile :=
  ⟨spec, owner, .detect content, content⟩

def RuleReference.ofFile (file : RuleFile) : RuleReference := ⟨file.format, .single, [file]⟩

theorem RuleReference.classify?_singleton (file : RuleFile) : classify? [file] = some (ofFile file) := by
  obtain ⟨spec, owner, format, content⟩ := file
  cases format <;> rfl

namespace RuleTable

def ofContent (spec : RuleFileSpec) (owner : Component) (components : List Component) (content : String) :
    Except ConfigurationError RuleTable :=
  ofReference (.ofFile (.ofContent spec owner content)) components

theorem ofContent_eq : ofContent spec owner components content =
    (entriesOf (.ofContent spec owner content) >>= fun entries =>
      entries.foldlM (addEntry .single components owner) {}) := by
  unfold ofContent ofReference RuleReference.ofFile
  rw [List.foldlM_cons]
  simp only [List.foldlM_nil, bind_pure]
  rfl

theorem entriesOf_lines (format : RuleFormat.detect content = .lines) :
    entriesOf (.ofContent spec owner content) =
      (LoadRule.Lines.read content).mapError (.invalidRuleFile spec.text) := by
  unfold entriesOf RuleFile.ofContent
  simp only [format]

/-- An XML file says the same behind a mark. -/
theorem ofContent_marked_markup (format : RuleFormat.detect content = .xml) :
    ofContent spec owner components (marked content) = ofContent spec owner components content := by
  have entries : entriesOf (.ofContent spec owner (marked content)) = entriesOf (.ofContent spec owner content) := by
    unfold entriesOf RuleFile.ofContent
    simp only [detect_marked, format, LoadRule.Markup.read_marked]
  rw [ofContent_eq, ofContent_eq, entries]

/-- A line-oriented file is refused behind a mark. -/
theorem ofContent_marked_lines (format : RuleFormat.detect content = .lines) :
    ofContent spec owner components (marked content) = .error (.invalidRuleFile spec.text (.badLine 1)) := by
  rw [ofContent_eq, entriesOf_lines ((detect_marked content).trans format), LoadRule.Lines.read_marked]
  rfl

/-- Without a mark it is refused when one of its lines is. -/
theorem ofContent_lines (format : RuleFormat.detect content = .lines) :
    (∃ rules, LoadRule.Lines.read content = .ok rules ∧ ∃ t, ofContent spec owner components content = .ok t) ∨
    ∃ fault, LoadRule.Lines.read content = .error fault ∧
      ofContent spec owner components content = .error (.invalidRuleFile spec.text fault) := by
  rw [ofContent_eq, entriesOf_lines format]
  cases read : LoadRule.Lines.read content with
  | error fault => exact .inr ⟨fault, rfl, rfl⟩
  | ok rules =>
    have settled : ∀ e ∈ rules, e.IsSettled .single components := by
      intro e member _ ref wanted
      cases (LoadRule.Lines.silent_of_readFrom read e member).symm.trans wanted
    have added : ∃ t, rules.foldlM (addEntry .single components owner) {} = .ok t :=
      (exists_foldlM_iff (f := addEntry .single components owner) fun _ _ => exists_addEntry_iff).2 settled
    exact .inl ⟨rules, rfl, added⟩

/-- The same table comes of both, or a fault of the same kind. -/
inductive SameOutcome : Except ConfigurationError RuleTable → Except ConfigurationError RuleTable → Prop
  | table (t : RuleTable) : SameOutcome (.ok t) (.ok t)
  | fault {e e' : ConfigurationError} (kind : e.ctorIdx = e'.ctorIdx) : SameOutcome (.error e) (.error e')

theorem SameOutcome.refl (outcome : Except ConfigurationError RuleTable) : SameOutcome outcome outcome := by
  cases outcome with
  | error e => exact .fault rfl
  | ok t => exact .table t

structure Marks (spec : RuleFileSpec) (owner : Component) (components : List Component) (content : String) : Prop where
  format : RuleFormat.detect (marked content) = .detect content
  /-- The reference is made of the file alone. -/
  alone : RuleReference.classify? [.ofContent spec owner content] = some (.ofFile (.ofContent spec owner content))
  markup : RuleFormat.detect content = .xml →
    ofContent spec owner components (marked content) = ofContent spec owner components content
  lines : RuleFormat.detect content = .lines →
    ofContent spec owner components (marked content) = .error (.invalidRuleFile spec.text (.badLine 1))
  same : SameOutcome (ofContent spec owner components (marked content)) (ofContent spec owner components content) ↔
    RuleFormat.detect content = .xml ∨ ∃ fault, LoadRule.Lines.read content = .error fault

theorem ofContent_marks (spec : RuleFileSpec) (owner : Component) (components : List Component) (content : String) :
    Marks spec owner components content where
  format := detect_marked content
  alone := RuleReference.classify?_singleton _
  markup := ofContent_marked_markup
  lines := ofContent_marked_lines
  same := by
    cases format : RuleFormat.detect content with
    | xml =>
      rw [ofContent_marked_markup format]
      exact iff_of_true (.refl _) (.inl rfl)
    | lines =>
      rw [ofContent_marked_lines format]
      obtain ⟨rules, read, t, done⟩ | ⟨fault, read, done⟩ := ofContent_lines format
      · rw [read, done]
        exact iff_of_false nofun (by rintro (other | ⟨fault, other⟩) <;> cases other)
      · rw [done]
        exact iff_of_true (.fault rfl) (.inr ⟨fault, read⟩)

/-- The mark becomes part of the key. -/
theorem not_same_marked_line :
    ofContent ⟨some "core", "load.rules"⟩ ⟨"_c1", "core"⟩ [⟨"_c1", "core"⟩] "RootFolderName=/src" =
      .ok ⟨[⟨⟨"_c1", "core"⟩, ["src"]⟩]⟩ ∧
    ofContent ⟨some "core", "load.rules"⟩ ⟨"_c1", "core"⟩ [⟨"_c1", "core"⟩] (marked "RootFolderName=/src") =
      .error (.invalidRuleFile "core:load.rules" (.badLine 1)) ∧
    ¬ SameOutcome
      (ofContent ⟨some "core", "load.rules"⟩ ⟨"_c1", "core"⟩ [⟨"_c1", "core"⟩] (marked "RootFolderName=/src"))
      (ofContent ⟨some "core", "load.rules"⟩ ⟨"_c1", "core"⟩ [⟨"_c1", "core"⟩] "RootFolderName=/src") := by
  have plain : ofContent ⟨some "core", "load.rules"⟩ ⟨"_c1", "core"⟩ [⟨"_c1", "core"⟩] "RootFolderName=/src" =
      .ok ⟨[⟨⟨"_c1", "core"⟩, ["src"]⟩]⟩ := by decide +kernel
  have refused : ofContent ⟨some "core", "load.rules"⟩ ⟨"_c1", "core"⟩ [⟨"_c1", "core"⟩]
      (marked "RootFolderName=/src") = .error (.invalidRuleFile "core:load.rules" (.badLine 1)) := by decide +kernel
  refine ⟨plain, refused, ?_⟩
  rw [plain, refused]
  exact nofun

end RuleTable

end SandboxFetch
