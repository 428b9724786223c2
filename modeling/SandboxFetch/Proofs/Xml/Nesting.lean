/-
  SandboxFetch.Proofs.Xml.Nesting — the elements that a tag stands in.

  Which elements are open before an event is told by the tags before it (`outline`), and how many tags
  of one name stand inside elements of other names is a count over the positions of the document
  (`tagsInside`). A document is scanned only as far as its closing tags name the innermost open element
  (`matched_scan`), so what was opened was closed or is still open (`Matched.opens`).
-/

import Mathlib.Data.List.Infix
import SandboxFetch.Xml.Event

namespace SandboxFetch.Xml

/-! ## Open elements -/

def Event.tag? : Event → Option Tag
  | .opening tag | .empty tag => some tag
  | .closing _ => none

/-- The name of the element that an event begins. -/
def Event.starts? : Event → Option String
  | .opening tag | .empty tag => some tag.localName
  | .closing _ => none

/-- The name of the element that an event opens. -/
def Event.opens? : Event → Option String
  | .opening tag => some tag.localName
  | .empty _ | .closing _ => none

def Event.closes? : Event → Option String
  | .closing name => some (Xml.localName name)
  | .opening _ | .empty _ => none

/-- The name of the element that an event is all of. -/
def Event.alone? : Event → Option String
  | .empty tag => some tag.localName
  | .opening _ | .closing _ => none

def tagCount (does? : Event → Option String) (name : String) (events : List Event) : Nat :=
  events.countP fun e => does? e = some name

theorem tagCount_concat (does? : Event → Option String) (name : String) (events : List Event) (e : Event) :
    tagCount does? name (events ++ [e]) = tagCount does? name events + if does? e = some name then 1 else 0 := by
  simp [tagCount, List.countP_append, List.countP_singleton]

theorem tagCount_cons_of_ne {does? : Event → Option String} {name : String} {e : Event} (other : does? e ≠ some name)
    (events : List Event) : tagCount does? name (e :: events) = tagCount does? name events :=
  List.countP_cons_of_neg (by simpa using other)

theorem tagCount_starts (name : String) (events : List Event) :
    tagCount Event.starts? name events = tagCount Event.opens? name events + tagCount Event.alone? name events := by
  induction events using List.reverseRecOn with
  | nil => rfl
  | append_singleton front e ih =>
    rw [tagCount_concat, tagCount_concat, tagCount_concat, ih]
    cases e with
    | opening tag => exact Nat.add_right_comm _ _ _
    | empty tag => exact Nat.add_assoc _ _ _
    | closing name => rfl

def Event.outline (around : List String) : Event → List String
  | .opening tag => tag.localName :: around
  | .empty _ => around
  | .closing _ => around.tail

/-- The names of the elements that are open after some events, innermost first. -/
def outline (events : List Event) : List String := events.foldl Event.outline []

theorem outline_concat (events : List Event) (e : Event) : outline (events ++ [e]) = e.outline (outline events) := by
  simp [outline]

def Inside (names : List String) (before : List Event) : Prop := ∃ name ∈ outline before, name ∈ names

instance (names : List String) (before : List Event) : Decidable (Inside names before) :=
  inferInstanceAs (Decidable (∃ name ∈ outline before, name ∈ names))

/-- How many events begin an element of a name inside an element of one of some other names. -/
def tagsInside (name : String) (names : List String) (events : List Event) : Nat :=
  (List.range events.length).countP fun i =>
    events[i]?.bind Event.starts? = some name ∧ Inside names (events.take i)

@[simp] theorem tagsInside_nil (name : String) (names : List String) : tagsInside name names [] = 0 := rfl

theorem tagsInside_concat (name : String) (names : List String) (events : List Event) (e : Event) :
    tagsInside name names (events ++ [e]) =
      tagsInside name names events + if e.starts? = some name ∧ Inside names events then 1 else 0 := by
  have front : ∀ i ∈ List.range events.length,
      (decide ((events ++ [e])[i]?.bind Event.starts? = some name ∧ Inside names ((events ++ [e]).take i)) = true ↔
        decide (events[i]?.bind Event.starts? = some name ∧ Inside names (events.take i)) = true) := by
    intro i member
    have below : i < events.length := List.mem_range.1 member
    rw [List.getElem?_append_left below, List.take_append_of_le_length (by omega)]
  unfold tagsInside
  rw [List.length_append, List.length_singleton, List.range_succ, List.countP_append, List.countP_congr front,
    List.countP_singleton]
  simp

/-! ## Closing tags -/

/-- Every closing tag names the innermost open element. -/
def Matched (events : List Event) : Prop :=
  ∀ before name, before ++ [.closing name] <+: events → (outline before).head? = some (localName name)

theorem Matched.of_prefix {front events : List Event} (h : Matched events) (earlier : front <+: events) : Matched front :=
  fun before name closes => h before name (closes.trans earlier)

theorem Matched.front {events : List Event} {e : Event} (h : Matched (events ++ [e])) : Matched events :=
  h.of_prefix (List.prefix_append _ _)

/-- A closing tag leaves the element that it names. -/
theorem Matched.closing {events : List Event} {name : List Char} (h : Matched (events ++ [.closing name])) :
    outline events = localName name :: outline (events ++ [.closing name]) := by
  have head := h events name List.prefix_rfl
  rw [outline_concat]
  cases opened : outline events with
  | nil =>
    rw [opened] at head
    cases head
  | cons first outer =>
    rw [opened] at head
    rw [Option.some.inj head]
    rfl

/-- An element that was opened was closed, or it is still open. -/
theorem Matched.opens {events : List Event} (h : Matched events) (name : String) :
    tagCount Event.opens? name events = tagCount Event.closes? name events + (outline events).count name := by
  induction events using List.reverseRecOn with
  | nil => rfl
  | append_singleton front e ih =>
    have ih := ih h.front
    rw [tagCount_concat, tagCount_concat, ih]
    cases e with
    | opening tag =>
      rw [outline_concat, Event.outline, List.count_cons]
      simp [Event.opens?, Event.closes?, Nat.add_assoc]
    | empty tag =>
      rw [outline_concat]
      rfl
    | closing raw =>
      rw [h.closing, List.count_cons]
      simp only [Event.opens?, Event.closes?, Option.some.injEq, reduceCtorEq, if_false, beq_iff_eq]
      omega

/-- The open tags of a scanner after a step, by the event that the step completes. -/
def Follows (before after : List (List Char)) : Option Event → Prop
  | none => after = before
  | some (.opening tag) => after = tag.name :: before
  | some (.empty _) => after = before
  | some (.closing name) => before = name :: after

namespace Scanner

theorem follows_finishTag (s : Scanner) (content : List Char) :
    Follows s.openTags (s.finishTag content).2.openTags (s.finishTag content).1 := by
  unfold finishTag
  split
  · dsimp only
    split
    · rfl
    · next expected outer known =>
      split
      · next same =>
        rw [known, same]
        rfl
      · rfl
  · split
    · rfl
    · rfl

theorem follows_stepTag (s : Scanner) (quote : Option Char) (content : List Char) (c : Char) :
    Follows s.openTags (s.stepTag quote content c).2.openTags (s.stepTag quote content c).1 := by
  unfold stepTag
  split
  · rfl
  · split
    · exact follows_finishTag s _
    · rfl

theorem follows_step (s : Scanner) (c : Char) : Follows s.openTags (s.step c).2.openTags (s.step c).1 := by
  unfold step
  split
  · split <;> rfl
  · split
    · rfl
    · split
      · rfl
      · exact follows_stepTag s _ _ c
  · exact follows_stepTag s _ _ c
  · repeat' split
    all_goals rfl
  · repeat' split
    all_goals rfl
  · repeat' split
    all_goals rfl
  · split
    · split
      · unfold finishDoctype
        repeat' split
        all_goals rfl
      · rfl
    · rfl
  · repeat' split
    all_goals rfl
  · rfl

/-- What a scanner yields goes on from what came before it, when that left the same elements open. -/
theorem matched_run (s : Scanner) (cs : List Char) {before : List Event}
    (open? : outline before = s.openTags.map localName) (matched : Matched before) :
    Matched (before ++ (s.run cs).1) := by
  induction cs generalizing s before with
  | nil => simpa [run] using matched
  | cons c rest ih =>
    have follows := follows_step s c
    show Matched (before ++ ((s.step c).1.toList ++ ((s.step c).2.run rest).1))
    cases event : (s.step c).1 with
    | none =>
      rw [event] at follows
      have same : (s.step c).2.openTags = s.openTags := follows
      refine ih _ ?_ matched
      rw [open?, same]
    | some e =>
      rw [event] at follows
      rw [Option.toList_some, ← List.append_assoc]
      refine ih _ ?_ ?_
      -- the scanner keeps the open tags, which are the elements that are open
      · rw [outline_concat, open?]
        cases e with
        | opening tag =>
          have entered : (s.step c).2.openTags = tag.name :: s.openTags := follows
          rw [entered]
          rfl
        | empty tag =>
          have same : (s.step c).2.openTags = s.openTags := follows
          rw [same]
          rfl
        | closing name =>
          have left : s.openTags = name :: (s.step c).2.openTags := follows
          rw [left]
          rfl
      -- the closing tag is this event or an earlier one
      · intro front name closes
        rcases List.prefix_concat_iff.1 closes with whole | earlier
        · obtain ⟨rfl, last⟩ := List.append_inj' whole rfl
          obtain rfl : Event.closing name = e := List.singleton_inj.1 last
          have left : s.openTags = name :: (s.step c).2.openTags := follows
          rw [open?, left]
          rfl
        · exact matched front name earlier

end Scanner

theorem matched_scan (cs : List Char) : Matched (Document.scan cs).events := by
  have none : Matched [] := fun before name closes => by simp at closes
  exact Scanner.matched_run Scanner.init cs rfl none

end SandboxFetch.Xml
