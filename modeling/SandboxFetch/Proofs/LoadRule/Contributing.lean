/-
  SandboxFetch.Proofs.LoadRule.Contributing — which rules of an XML file take effect.

  Between the tag that opens a rule and the one that closes it, the last component and the last path
  count (`OpenRule.ofBody`). The rules of a file are those that are closed, in the order of their
  closing tags, each with what was said in it. A rule that stands in another one is closed before the
  outer one, whose closing tag then has no rule to close; so a file that is read has as many rules as
  tags of rules, less the empty ones and the ones still open at its end (`read_contributes`). Those two
  are lost without a fault (`not_contributing`).
-/

import SandboxFetch.LoadRule.Markup
import SandboxFetch.Proofs.Xml.Nesting
import SandboxFetch.Proofs.Results

namespace SandboxFetch.LoadRule.Markup

open Xml (Event Matched Tag outline tagCount tagCount_concat)

variable {s s' : State} {e : Event} {events body : List Event} {rules : List RuleEntry} {tag : Tag} {content : String}

/-! ## What is said in a rule -/

def componentOf? (tag : Tag) : Option ComponentRef :=
  if tag.localName = "component" then (componentRef tag).toOption else none

def pathOf? (tag : Tag) : Option String :=
  if tag.localName = "parentFolder" ∨ tag.localName = "item" then (attribute? tag "repositoryPath").toOption.join
  else none

namespace OpenRule

/-- What some events say of a rule: the last component and the last path. -/
def ofBody (body : List Event) : OpenRule :=
  let tags := body.filterMap Event.tag?
  ⟨(tags.filterMap componentOf?).getLast?, (tags.filterMap pathOf?).getLast?⟩

def heard (rule : OpenRule) (e : Event) : OpenRule :=
  match e.tag? with
  | some tag => ⟨(componentOf? tag).or rule.component, (pathOf? tag).or rule.path⟩
  | none => rule

theorem ofBody_concat (body : List Event) (e : Event) : ofBody (body ++ [e]) = (ofBody body).heard e := by
  unfold ofBody heard
  cases said : e.tag? with
  | none => simp [said]
  | some tag => cases named : componentOf? tag <;> cases selected : pathOf? tag <;> simp [said, named, selected]

end OpenRule

/-- A rule of a file is what the events between its tags say. -/
def Says (body : List Event) (rule : RuleEntry) : Prop := OpenRule.ofBody body = ⟨rule.component, some rule.path⟩

structure Bodies where
  /-- What follows the tag of a rule that is not closed. -/
  open? : Option (List Event) := none
  closed : List (List Event) := []

/-- Only the tags of rules begin and end a body. -/
def Bodies.after (b : Bodies) (e : Event) : Bodies :=
  if e.opens? = some ruleName then { b with open? := some [] }
  else if e.closes? = some ruleName then ⟨none, b.closed ++ b.open?.toList⟩
  else { b with open? := b.open?.map (· ++ [e]) }

def bodies (events : List Event) : Bodies := events.foldl Bodies.after {}

theorem bodies_concat (events : List Event) (e : Event) : bodies (events ++ [e]) = (bodies events).after e := by
  simp [bodies]

/-! ## One event -/

inductive Steps (s : State) (e : Event) : State → Prop
  | opens (rule : e.opens? = some ruleName) : Steps s e { s with current := some {} }
  | closes {rule : OpenRule} {path : String} (ends : e.closes? = some ruleName) (current : s.current = some rule)
      (known : rule.path = some path) :
      Steps s e { s with current := none, rules := s.rules ++ [⟨rule.component, path⟩] }
  | tells (within : e.opens? ≠ some ruleName) (still : e.closes? ≠ some ruleName) :
      Steps s e { s with current := s.current.map (·.heard e) }

/-- A tag other than that of a rule tells the open rule something, or nothing. -/
theorem element_of_other (other : tag.localName ≠ ruleName) (done : s.element tag = .ok s') (tagged : e.tag? = some tag) :
    s' = { s with current := s.current.map (·.heard e) } := by
  obtain ⟨seen, current, rules⟩ := s
  unfold State.element at done
  rw [if_neg other] at done
  unfold OpenRule.heard
  simp only [tagged]
  by_cases component : tag.localName = "component"
  · rw [if_pos component] at done
    cases current with
    | none => cases done
    | some rule =>
      obtain ⟨ref, named, done⟩ := ok_of_bind done
      cases done
      simp [componentOf?, pathOf?, component, named, Except.toOption]
  · rw [if_neg component] at done
    by_cases selects : tag.localName = "parentFolder" ∨ tag.localName = "item"
    · rw [if_pos selects] at done
      cases current with
      | none => cases done
      | some rule =>
        obtain ⟨value, selected, done⟩ := ok_of_bind done
        cases value with
        | none => cases done
        | some path =>
          cases done
          simp [componentOf?, pathOf?, component, selects, selected, Except.toOption]
    · rw [if_neg selects] at done
      cases done
      cases current <;> simp [componentOf?, pathOf?, component, selects]

/-- The tag of a rule, and a closing tag, say nothing of the rule that they stand in. -/
theorem heard_eq_self (silent : ∀ tag, e.tag? = some tag → tag.localName = ruleName) (rule : OpenRule) :
    rule.heard e = rule := by
  unfold OpenRule.heard
  split
  · next tag tagged => simp [componentOf?, pathOf?, silent tag tagged, ruleName]
  · rfl

theorem steps_self (within : e.opens? ≠ some ruleName) (still : e.closes? ≠ some ruleName)
    (silent : ∀ tag, e.tag? = some tag → tag.localName = ruleName) : Steps s e s := by
  have same : s.current.map (·.heard e) = s.current := by
    rw [funext (heard_eq_self silent)]
    exact Option.map_id'
  have told : Steps s e { s with current := s.current.map (·.heard e) } := .tells within still
  rwa [same] at told

theorem steps_of_step (seen : s.rootSeen = true) (done : s.step e = .ok s') : Steps s e s' := by
  unfold State.step State.start at done
  -- behind the root a tag of a rule opens or closes it, and any other tells the open rule something
  cases e with
  | opening tag =>
    simp only [seen, if_true] at done
    by_cases rule : tag.localName = ruleName
    · unfold State.element at done
      rw [if_pos rule] at done
      cases done
      exact .opens (congrArg some rule)
    · rw [element_of_other (e := .opening tag) rule done rfl]
      exact .tells (by simpa [Event.opens?] using rule) (by simp [Event.closes?])
  | empty tag =>
    simp only [seen, if_true, true_and] at done
    by_cases rule : tag.localName = ruleName
    · rw [if_pos rule] at done
      cases done
      exact steps_self (by simp [Event.opens?]) (by simp [Event.closes?]) fun _ tagged => Option.some.inj tagged ▸ rule
    · rw [if_neg rule] at done
      rw [element_of_other (e := .empty tag) rule done rfl]
      exact .tells (by simp [Event.opens?]) (by simp [Event.closes?])
  | closing name =>
    dsimp only at done
    by_cases rule : Xml.localName name = ruleName
    · rw [if_pos rule] at done
      unfold State.closeRule at done
      cases current : s.current with
      | none =>
        simp only [current] at done
        cases done
      | some opened =>
        simp only [current] at done
        cases known : opened.path with
        | none =>
          simp only [known] at done
          cases done
        | some path =>
          simp only [known] at done
          cases done
          exact .closes (congrArg some rule) current known
    · rw [if_neg rule] at done
      cases done
      refine steps_self (by simp [Event.opens?]) (by simpa [Event.closes?] using rule) fun _ tagged => ?_
      cases tagged

/-! ## A run over the events behind the root -/

structure Holds (events : List Event) (s : State) : Prop where
  seen : s.rootSeen = true
  current : s.current = (bodies events).open?.map OpenRule.ofBody
  rules : List.Forall₂ Says (bodies events).closed s.rules
  counted : s.rules.length = tagCount Event.closes? ruleName events

theorem Holds.step (holds : Holds events s) (done : s.step e = .ok s') : Holds (events ++ [e]) s' := by
  -- the bodies of the rules are the open one and the closed ones, and change as the reader does
  cases steps_of_step holds.seen done with
  | opens rule =>
    have still : e.closes? ≠ some ruleName := by
      cases e <;> simp_all [Event.opens?, Event.closes?]
    have after : bodies (events ++ [e]) = { bodies events with open? := some [] } := by
      rw [bodies_concat, Bodies.after, if_pos rule]
    refine ⟨holds.seen, ?_, ?_, ?_⟩
    · rw [after]
      rfl
    · rw [after]
      exact holds.rules
    · rw [tagCount_concat, if_neg still]
      exact holds.counted
  | @closes rule path ends current known =>
    have within : e.opens? ≠ some ruleName := by
      cases e <;> simp_all [Event.opens?, Event.closes?]
    obtain ⟨body, opened, said⟩ := Option.map_eq_some_iff.1 (holds.current.symm.trans current)
    have after : bodies (events ++ [e]) = ⟨none, (bodies events).closed ++ [body]⟩ := by
      rw [bodies_concat, Bodies.after, if_neg within, if_pos ends, opened]
      rfl
    refine ⟨holds.seen, ?_, ?_, ?_⟩
    · rw [after]
      rfl
    · rw [after]
      refine List.rel_append holds.rules (.cons ?_ .nil)
      rw [Says, said, ← known]
    · rw [tagCount_concat, if_pos ends, List.length_append, holds.counted]
      rfl
  | tells within still =>
    have after : bodies (events ++ [e]) = { bodies events with open? := (bodies events).open?.map (· ++ [e]) } := by
      rw [bodies_concat, Bodies.after, if_neg within, if_neg still]
    refine ⟨holds.seen, ?_, ?_, ?_⟩
    · rw [after, holds.current, Option.map_map, Option.map_map]
      exact congrArg (Option.map · _) (funext fun body => (OpenRule.ofBody_concat body e).symm)
    · rw [after]
      exact holds.rules
    · rw [tagCount_concat, if_neg still]
      exact holds.counted

theorem Holds.run (done : events.foldlM State.step { rootSeen := true } = .ok s) : Holds events s :=
  foldlM_along Holds done (fun _ _ _ _ _ holds next => holds.step next) ⟨rfl, rfl, .nil, rfl⟩

/-! ## A file -/

structure Contributes (root : Event) (behind : List Event) (rules : List RuleEntry) : Prop where
  /-- Each rule that is closed contributes what was said in it, in the order of the closing tags. -/
  ordered : List.Forall₂ Says (bodies behind).closed rules
  /-- Each tag of a rule contributes a rule, or it is empty, or the rule is open at the end. -/
  counted : tagCount Event.starts? ruleName behind =
    rules.length + tagCount Event.alone? ruleName behind + (outline (root :: behind)).count ruleName
  /-- So there are as many rules as tags just when no tag is empty and no rule is left open. -/
  all : rules.length = tagCount Event.starts? ruleName behind ↔
    tagCount Event.alone? ruleName behind = 0 ∧ ruleName ∉ outline (root :: behind)

theorem read_eq_ok (done : read content = .ok rules) :
    ∃ final, (Xml.Document.scan (Text.dropMarks content.toList)).events.foldlM State.step {} = .ok final ∧
      final.rootSeen = true ∧ final.rules = rules := by
  obtain ⟨final, run, done⟩ := ok_of_bind done
  refine ⟨final, run, ?_⟩
  split at done
  · cases done
  · split at done
    · next seen =>
      cases done
      exact ⟨seen, rfl⟩
    · cases done

/-- The first event of a file that is read is its root. -/
theorem root_of_run (matched : Matched events) (done : events.foldlM State.step {} = .ok s)
    (seen : s.rootSeen = true) : ∃ root behind, events = root :: behind ∧ root.starts? = some rootName ∧
      behind.foldlM State.step { rootSeen := true } = .ok s := by
  cases events with
  | nil =>
    cases done
    cases seen
  | cons root behind =>
    obtain ⟨mid, first, rest⟩ := ok_of_bind done
    have opened : ∀ tag : Tag, State.start {} tag = .ok mid → tag.localName = rootName ∧ mid = { rootSeen := true } := by
      intro tag started
      unfold State.start at started
      split at started
      · next known => cases known
      · split at started
        · next named =>
          cases started
          exact ⟨named, rfl⟩
        · cases started
    refine ⟨root, behind, rfl, ?_⟩
    cases root with
    | opening tag =>
      obtain ⟨named, rfl⟩ := opened tag first
      exact ⟨congrArg some named, rest⟩
    | empty tag =>
      obtain ⟨named, rfl⟩ := opened tag first
      exact ⟨congrArg some named, rest⟩
    | closing name =>
      -- nothing is open for the first event to close
      cases matched [] name ⟨behind, rfl⟩

theorem contributes_of_run {root : Event} {behind : List Event} (matched : Matched (root :: behind))
    (named : root.starts? = some rootName) (done : behind.foldlM State.step { rootSeen := true } = .ok s) :
    Contributes root behind s.rules := by
  have holds := Holds.run done
  have other : root.opens? ≠ some ruleName ∧ root.closes? ≠ some ruleName := by
    cases root with
    | opening tag =>
      have opens : (Event.opening tag).opens? = some rootName := named
      exact ⟨opens ▸ by decide, by simp [Event.closes?]⟩
    | empty tag => simp [Event.opens?, Event.closes?]
    | closing name => cases named
  have opens := matched.opens ruleName
  rw [Xml.tagCount_cons_of_ne other.1, Xml.tagCount_cons_of_ne other.2, ← holds.counted] at opens
  have counted : tagCount Event.starts? ruleName behind =
      s.rules.length + tagCount Event.alone? ruleName behind + (outline (root :: behind)).count ruleName := by
    rw [Xml.tagCount_starts, opens]
    exact Nat.add_right_comm _ _ _
  refine ⟨holds.rules, counted, ?_⟩
  rw [counted, ← List.count_eq_zero]
  omega

/-- A file that is read has, behind its root, as many rules as tags of rules, less the empty tags and
    the rules that are still open at its end; the others contribute what was said in them, in order. -/
theorem read_contributes (done : read content = .ok rules) :
    ∃ root behind, (Xml.Document.scan (Text.dropMarks content.toList)).events = root :: behind ∧
      root.starts? = some rootName ∧ Contributes root behind rules := by
  obtain ⟨final, run, seen, rfl⟩ := read_eq_ok done
  have matched := Xml.matched_scan (Text.dropMarks content.toList)
  obtain ⟨root, behind, split, named, rest⟩ := root_of_run matched run seen
  exact ⟨root, behind, split, named, contributes_of_run (split ▸ matched) named rest⟩

/-! ## Rules that are read, and rules that are lost -/

def openRule : String := "<parentLoadRule><parentFolder repositoryPath=\"/src\"/>"

theorem read_contributes_closed : ∃ root behind,
    (Xml.Document.scan ("<sourceControlLoadRule>" ++ openRule ++ "</parentLoadRule>").toList).events = root :: behind ∧
    Contributes root behind [⟨none, "/src"⟩] := by
  have done : read ("<sourceControlLoadRule>" ++ openRule ++ "</parentLoadRule>") = .ok [⟨none, "/src"⟩] := by
    decide +kernel
  obtain ⟨root, behind, split, -, contributes⟩ := read_contributes done
  exact ⟨root, behind, split, contributes⟩

def ruleTags (text : String) : Nat := tagCount Event.starts? ruleName (Xml.Document.scan text.toList).events

/-- A rule that is open at the end is lost, and so is one with an empty tag, which is a fault when it
    is spelled with two. -/
theorem not_contributing :
    (ruleTags ("<sourceControlLoadRule>" ++ openRule) = 1 ∧ read ("<sourceControlLoadRule>" ++ openRule) = .ok []) ∧
    (ruleTags "<sourceControlLoadRule><parentLoadRule/></sourceControlLoadRule>" = 1 ∧
      read "<sourceControlLoadRule><parentLoadRule/></sourceControlLoadRule>" = .ok []) ∧
    read "<sourceControlLoadRule><parentLoadRule></parentLoadRule></sourceControlLoadRule>" = .error .pathlessRule := by
  decide +kernel

end SandboxFetch.LoadRule.Markup
