/-
  SandboxFetch.Proofs.LoadRule.Grammar — which texts are line-oriented rule files.

  A text is made of its lines in one way only (`madeOf_iff`), and each line is blank, a comment, a rule or
  none of these (`Says`). A file is read when each of its lines is one of the first three, and comes to the
  paths of its rules in the order of the lines; otherwise the fault has the number of the first line that
  is none (`entriesOf_grammar`).
-/

import SandboxFetch.LoadRule.Table
import SandboxFetch.Proofs.Results
import SandboxFetch.Proofs.Text.Ends

namespace SandboxFetch.LoadRule.Lines

/-! ## Lines -/

inductive MadeOf : List Char → List (List Char) → Prop
  | none : MadeOf [] []
  /-- The last line may end with the text. -/
  | last {line : List Char} : line ≠ [] → '\n' ∉ line → MadeOf line [line]
  | feed {line rest : List Char} {lines : List (List Char)} : '\n' ∉ line → line.getLast? ≠ some '\r' →
      MadeOf rest lines → MadeOf (line ++ '\n' :: rest) (line :: lines)
  /-- A carriage return in front of a line feed belongs to the break. -/
  | returnFeed {line rest : List Char} {lines : List (List Char)} : '\n' ∉ line → MadeOf rest lines →
      MadeOf (line ++ '\r' :: '\n' :: rest) (line :: lines)

variable {cs core line : List Char} {lines : List (List Char)} {said : Option (List Char)}

/-- Up to a line feed there is one line. -/
theorem lines_append (bare : '\n' ∉ line) (rest : List Char) :
    Text.lines (line ++ '\n' :: rest) = Text.dropReturn line :: Text.lines rest := by
  unfold Text.lines
  rw [List.splitOn_append_cons_self, List.splitOn_eq_singleton bare, List.singleton_append]
  cases pieces : rest.splitOn '\n' with
  | nil => exact absurd pieces (List.splitOn_ne_nil _ _)
  | cons piece more =>
    rw [Text.linesOfPieces]
    exact nofun

theorem lines_of_madeOf (made : MadeOf cs lines) : Text.lines cs = lines := by
  induction made with
  | none => rfl
  | last some bare =>
    unfold Text.lines
    rw [List.splitOn_eq_singleton bare]
    simp [Text.linesOfPieces, some]
  | feed bare whole _ ih => rw [lines_append bare, Text.dropReturn, if_neg whole, ih]
  | @returnFeed line rest lines bare _ ih =>
    have inner : '\n' ∉ line ++ ['\r'] := by simp [bare]
    have cut := lines_append inner rest
    rw [List.append_assoc, List.singleton_append] at cut
    rw [cut, ih]
    simp [Text.dropReturn]

theorem exists_madeOf (cs : List Char) : ∃ lines, MadeOf cs lines := by
  induction size : cs.length using Nat.strongRecOn generalizing cs with
  | ind n ih =>
    by_cases feed : '\n' ∈ cs
    · obtain ⟨piece, rest, rfl, bare⟩ := List.eq_append_cons_of_mem feed
      obtain ⟨lines, made⟩ := ih rest.length (by simp at size; omega) rest rfl
      by_cases last : piece.getLast? = some '\r'
      · -- the carriage return belongs to the line break
        obtain ⟨line, rfl⟩ := List.getLast?_eq_some_iff.1 last
        rw [List.append_assoc, List.singleton_append]
        exact ⟨_, .returnFeed (fun member => bare (List.mem_append_left _ member)) made⟩
      · exact ⟨_, .feed bare last made⟩
    · by_cases none : cs = []
      · subst none
        exact ⟨[], .none⟩
      · exact ⟨[cs], .last none feed⟩

theorem madeOf_iff : MadeOf cs lines ↔ Text.lines cs = lines := by
  refine ⟨lines_of_madeOf, fun same => ?_⟩
  obtain ⟨others, made⟩ := exists_madeOf cs
  rw [← same, lines_of_madeOf made]
  exact made

/-! ## What a line says -/

/-- A text is another one with white space around it. The inner one has none at its ends. -/
structure Pads (core cs : List Char) : Prop where
  around : ∃ before behind, cs = before ++ core ++ behind ∧
    (∀ c ∈ before, Text.isBlank c = true) ∧ ∀ c ∈ behind, Text.isBlank c = true
  first : ∀ c ∈ core.head?, Text.isBlank c = false
  last : ∀ c ∈ core.getLast?, Text.isBlank c = false

theorem pads_iff : Pads core cs ↔ strip cs = core := by
  constructor
  · intro ⟨⟨before, behind, whole, blank, blank'⟩, first, last⟩
    rw [whole, strip, Text.stripEnds_pad blank blank', Text.stripEnds_eq_self first last]
  · intro same
    subst same
    exact ⟨Text.exists_stripped _ cs, Text.not_of_mem_ends.1, Text.not_of_mem_ends.2⟩

/-- What a line says: nothing, or the path of a rule. -/
inductive Says (line : List Char) : Option (List Char) → Prop
  | blank : Pads [] line → Says line none
  | comment {text : List Char} : Pads ('#' :: text) line → Says line none
  | rule {key value path : List Char} : Pads (key ++ '=' :: value) line → '=' ∉ key → Pads rootFolderKey key →
      Pads path value → path ≠ [] → Says line (some path)

def Wrong (line : List Char) : Prop := ∀ said, ¬ Says line said

def ruleOf (path : List Char) : RuleEntry := ⟨none, String.ofList path⟩

/-- What is left of a rule is no comment: its key begins with another letter. -/
theorem head?_rule {key : List Char} (padded : Pads rootFolderKey key) (value : List Char) :
    (key ++ '=' :: value).head? ≠ some '#' := by
  obtain ⟨⟨before, behind, rfl, blank, -⟩, -, -⟩ := padded
  have letter : rootFolderKey = 'R' :: "ootFolderName".toList := by decide
  rw [letter]
  cases before with
  | nil => simp
  | cons c before =>
    intro sign
    obtain rfl : c = '#' := by simpa using sign
    exact absurd (blank '#' List.mem_cons_self) (by decide)

theorem readLine_of_says (h : Says line said) (number : Nat) : readLine number line = .ok (said.map ruleOf) := by
  unfold readLine
  cases h with
  | blank pads =>
    rw [pads_iff.1 pads]
    rfl
  | comment pads =>
    rw [pads_iff.1 pads]
    rfl
  | @rule key value path pads bare keyed valued some =>
    have other := head?_rule keyed value
    have cut : path? (key ++ '=' :: value) = .some path := by
      unfold path?
      simp only [Text.cutAt?_append bare, pads_iff.1 keyed, pads_iff.1 valued]
      simp [some]
    dsimp only
    rw [pads_iff.1 pads, if_neg (by simpa using other), cut]
    rfl

theorem readLine_of_wrong (wrong : Wrong line) (number : Nat) : readLine number line = .error (.badLine number) := by
  have padded : Pads (strip line) line := pads_iff.2 rfl
  unfold readLine
  dsimp only
  split
  · next idle =>
    exfalso
    rcases Bool.or_eq_true_iff.1 idle with empty | comment
    · rw [List.isEmpty_iff.1 empty] at padded
      exact wrong none (.blank padded)
    · obtain ⟨text, inner⟩ := List.head?_eq_some_iff.1 (eq_of_beq comment)
      rw [inner] at padded
      exact wrong none (.comment padded)
  · split
    · next path found =>
      exfalso
      unfold path? at found
      split at found
      · next key value cut =>
        obtain ⟨whole, bare⟩ := Text.cutAt?_eq_some cut
        split at found
        · next both =>
          rw [whole] at padded
          exact wrong _ (.rule padded bare (pads_iff.2 both.1) (pads_iff.2 rfl) both.2)
        · cases found
      · cases found
    · rfl

/-! ## Files -/

/-- The first line that may not stand in a rule file, with the number of lines before it. -/
def FirstWrong (lines : List (List Char)) (i : Nat) : Prop :=
  (∃ line, lines[i]? = some line ∧ Wrong line) ∧ ∀ j < i, ∀ line, lines[j]? = some line → ¬ Wrong line

theorem says_or_wrong (line : List Char) : (∃ said, Says line said) ∨ Wrong line := by
  by_cases h : ∃ said, Says line said
  · exact .inl h
  · exact .inr fun said this => h ⟨said, this⟩

theorem not_wrong_of_says (h : Says line said) : ¬ Wrong line := fun wrong => wrong said h

/-- Each line says something, or there is a first one that is wrong. -/
theorem saying_or_firstWrong (lines : List (List Char)) :
    (∃ saying, List.Forall₂ Says lines saying) ∨ ∃ i, FirstWrong lines i := by
  induction lines with
  | nil => exact .inl ⟨[], .nil⟩
  | cons line rest ih =>
    rcases says_or_wrong line with ⟨said, first⟩ | wrong
    · rcases ih with ⟨saying, others⟩ | ⟨i, ⟨bad, there, wrong⟩, before⟩
      · exact .inl ⟨said :: saying, .cons first others⟩
      · refine .inr ⟨i + 1, ⟨bad, by simpa using there, wrong⟩, ?_⟩
        intro j hj l there
        cases j with
        | zero =>
          obtain rfl : line = l := by simpa using there
          exact not_wrong_of_says first
        | succ j => exact before j (by omega) l (by simpa using there)
    · exact .inr ⟨0, ⟨line, rfl, wrong⟩, fun j hj => absurd hj (by omega)⟩

theorem readFrom_of_saying {saying : List (Option (List Char))} (h : List.Forall₂ Says lines saying) (number : Nat) :
    readFrom number lines = .ok (saying.reduceOption.map ruleOf) := by
  induction h generalizing number with
  | nil => rfl
  | @cons line said rest saying first _ ih =>
    rw [readFrom, readLine_of_says first, ih]
    cases said <;> rfl

theorem readFrom_of_firstWrong {i : Nat} (h : FirstWrong lines i) (number : Nat) :
    readFrom number lines = .error (.badLine (number + i)) := by
  induction lines generalizing number i with
  | nil =>
    obtain ⟨⟨line, there, -⟩, -⟩ := h
    cases there
  | cons line rest ih =>
    obtain ⟨⟨bad, there, wrong⟩, before⟩ := h
    cases i with
    | zero =>
      obtain rfl : line = bad := by simpa using there
      rw [readFrom, readLine_of_wrong wrong]
      rfl
    | succ i =>
      have first : ¬ Wrong line := before 0 (by omega) line rfl
      obtain ⟨said, spoken⟩ := (says_or_wrong line).resolve_right first
      have later : FirstWrong rest i := by
        refine ⟨⟨bad, by simpa using there, wrong⟩, fun j hj l there => ?_⟩
        exact before (j + 1) (by omega) l (by simpa using there)
      rw [readFrom, readLine_of_says spoken, ih later]
      show Except.error (RuleFault.badLine (number + 1 + i)) = _
      congr 2
      omega

theorem read_of_saying {content : String} {saying : List (Option (List Char))} (made : MadeOf content.toList lines)
    (h : List.Forall₂ Says lines saying) : read content = .ok (saying.reduceOption.map ruleOf) := by
  rw [read, madeOf_iff.1 made, readFrom_of_saying h]

theorem read_of_firstWrong {content : String} {i : Nat} (made : MadeOf content.toList lines)
    (h : FirstWrong lines i) : read content = .error (.badLine (i + 1)) := by
  rw [read, madeOf_iff.1 made, readFrom_of_firstWrong h, Nat.add_comm]

example : read "# header\n\nRootFolderName=/src\r\nRootFolderName = docs \n" =
    .ok [ruleOf "/src".toList, ruleOf "docs".toList] := by decide +kernel

structure Reads (spec : RuleFileSpec) (owner : Component) (content : String) : Prop where
  accepted : (∃ rules, RuleTable.entriesOf ⟨spec, owner, .lines, content⟩ = .ok rules) ↔
    ∃ lines, MadeOf content.toList lines ∧ ∀ line ∈ lines, ∃ said, Says line said
  /-- The paths of the rules, in the order of the lines. -/
  rules : ∀ rules, RuleTable.entriesOf ⟨spec, owner, .lines, content⟩ = .ok rules ↔
    ∃ lines saying, MadeOf content.toList lines ∧ List.Forall₂ Says lines saying ∧
      rules = saying.reduceOption.map fun path => ⟨none, String.ofList path⟩
  /-- The fault has the number of the first wrong line, and tells it. -/
  refused : ∀ e, RuleTable.entriesOf ⟨spec, owner, .lines, content⟩ = .error e ↔
    ∃ lines i, MadeOf content.toList lines ∧ FirstWrong lines i ∧ e = .invalidRuleFile spec.text (.badLine (i + 1)) ∧
      e.message = "invalid load rule file '" ++ spec.text ++ "': " ++
        ("line " ++ Text.writeNat (i + 1) ++ ": expected RootFolderName=<path>")

theorem entriesOf_grammar (spec : RuleFileSpec) (owner : Component) (content : String) : Reads spec owner content := by
  have entries : RuleTable.entriesOf ⟨spec, owner, .lines, content⟩ =
      (read content).mapError (.invalidRuleFile spec.text) := rfl
  -- either every line says something or one is the first that does not, and each way has its answer
  have answers : (∃ lines saying, MadeOf content.toList lines ∧ List.Forall₂ Says lines saying) ∨
      ∃ lines i, MadeOf content.toList lines ∧ FirstWrong lines i := by
    rcases saying_or_firstWrong (Text.lines content.toList) with ⟨saying, each⟩ | ⟨i, wrong⟩
    · exact .inl ⟨_, saying, madeOf_iff.2 rfl, each⟩
    · exact .inr ⟨_, i, madeOf_iff.2 rfl, wrong⟩
  have rules : ∀ rules, RuleTable.entriesOf ⟨spec, owner, .lines, content⟩ = .ok rules ↔
      ∃ lines saying, MadeOf content.toList lines ∧ List.Forall₂ Says lines saying ∧
        rules = saying.reduceOption.map ruleOf := by
    intro rules
    rw [entries, mapError_eq_ok]
    constructor
    · intro done
      rcases answers with ⟨lines, saying, made, each⟩ | ⟨lines, i, made, wrong⟩
      · cases (read_of_saying made each).symm.trans done
        exact ⟨lines, saying, made, each, rfl⟩
      · cases (read_of_firstWrong made wrong).symm.trans done
    · intro ⟨lines, saying, made, each, same⟩
      rw [same, read_of_saying made each]
  refine ⟨?_, rules, ?_⟩
  · constructor
    · intro ⟨found, done⟩
      obtain ⟨lines, saying, made, each, -⟩ := (rules found).1 done
      exact ⟨lines, made, fun line member => exists_of_mem_left each member⟩
    · intro ⟨lines, made, each⟩
      obtain ⟨saying, each⟩ := exists_forall₂ each
      exact ⟨_, (rules _).2 ⟨lines, saying, made, each, rfl⟩⟩
  · intro e
    rw [entries, mapError_eq_error]
    constructor
    · intro ⟨fault, failed, same⟩
      rcases answers with ⟨lines, saying, made, each⟩ | ⟨lines, i, made, wrong⟩
      · cases (read_of_saying made each).symm.trans failed
      · cases (read_of_firstWrong made wrong).symm.trans failed
        subst same
        exact ⟨lines, i, made, wrong, rfl, rfl⟩
    · intro ⟨lines, i, made, wrong, same, _⟩
      exact ⟨_, read_of_firstWrong made wrong, same.symm⟩

end SandboxFetch.LoadRule.Lines
