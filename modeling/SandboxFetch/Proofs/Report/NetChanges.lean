/-
  SandboxFetch.Proofs.Report.NetChanges — what a report tells of the versionables of a change set.

  The net changes of a change set are formed one change at a time, and the changes of different
  versionables may come in any order among each other. What comes out for a versionable depends on its
  own changes alone (`netChanges_cons`): the side before its first one and the side after its last
  one, at the place where it first appears (`netOf_netChanges`). A net change is reported by the
  states and paths that it has (`Shown`, `describes_of?`), unless it has no state on either side. The
  reported change set lists all that is reported this way or, when that is too much, only its number
  (`summarises_of`).
-/

import Mathlib.Data.List.Forall2
import SandboxFetch.Report.Building

namespace SandboxFetch

variable {changes rest others nets : List Change} {c net first last : Change} {id : ItemId}

/-! ## Net changes -/

/-- Changes are taken into the first net change or go past it to the others. -/
theorem foldl_addChange_cons : changes.foldl (fun nets c => addChange c nets) (net :: others) =
    { net with after := ((changes.filter (·.item == net.item)).getLast?.getD net).after } ::
      (changes.filter (·.item != net.item)).foldl (fun nets c => addChange c nets) others := by
  induction changes generalizing net others with
  | nil => rfl
  | cons c rest ih =>
    rw [List.foldl_cons, addChange]
    by_cases same : net.item = c.item
    · rw [if_pos same, ih, List.filter_cons_of_pos (by simp [same]), List.filter_cons_of_neg (by simp [same]),
        List.getLast?_cons]
      cases (rest.filter (·.item == net.item)).getLast? <;> rfl
    · rw [if_neg same, ih, List.filter_cons_of_neg (by simpa using Ne.symm same),
        List.filter_cons_of_pos (by simpa using Ne.symm same), List.foldl_cons]

/-- The versionable of the first change takes its own changes together, and the rest is as if they had
    not been there. -/
theorem netChanges_cons : netChanges (c :: rest) =
    ⟨c.item, c.before, ((rest.filter (·.item == c.item)).getLast?.getD c).after⟩ ::
      netChanges (rest.filter (·.item != c.item)) :=
  foldl_addChange_cons

/-- One net change for each versionable that occurs, with the sides of its own changes. -/
structure NetOf (changes nets : List Change) : Prop where
  /-- In order of first appearance. -/
  items : nets.map (·.item) = (changes.map (·.item)).eraseDups
  distinct : (nets.map (·.item)).Nodup
  sides : ∀ net ∈ nets, ∃ first last, changes.find? (·.item == net.item) = some first ∧
    (changes.filter (·.item == net.item)).getLast? = some last ∧ net.before = first.before ∧ net.after = last.after

namespace NetOf

theorem nil : NetOf [] [] := ⟨rfl, List.nodup_nil, fun _ => nofun⟩

theorem cons (h : NetOf (rest.filter (·.item != c.item)) nets) : NetOf (c :: rest)
    (⟨c.item, c.before, ((rest.filter (·.item == c.item)).getLast?.getD c).after⟩ :: nets) where
  items := by
    rw [List.map_cons, List.map_cons, List.eraseDups_cons, List.filter_map, h.items]
    rfl
  distinct := by
    rw [List.map_cons, List.nodup_cons]
    refine ⟨?_, h.distinct⟩
    -- the rest has no change of the first versionable
    rw [h.items, List.mem_eraseDups, List.mem_map]
    rintro ⟨d, member, same⟩
    simp [same] at member
  sides net member := by
    rcases List.mem_cons.1 member with rfl | member
    · refine ⟨c, (rest.filter (·.item == c.item)).getLast?.getD c, List.find?_cons_of_pos (beq_self_eq_true _), ?_,
        rfl, rfl⟩
      dsimp only
      rw [List.filter_cons, if_pos (beq_self_eq_true c.item), List.getLast?_cons]
    · obtain ⟨first, last, isFirst, isLast, before, after⟩ := h.sides net member
      have other : net.item ≠ c.item := by
        have kept := (List.mem_filter.1 (List.mem_of_find?_eq_some isFirst)).2
        have same := List.find?_some isFirst
        rw [beq_iff_eq] at same
        rw [same] at kept
        simpa using kept
      -- leaving out the changes of another versionable leaves out none of this one's
      have own : ∀ d : Change, (d.item != c.item && d.item == net.item) = (d.item == net.item) := by
        intro d
        by_cases same : d.item = net.item
        · simp [same, other]
        · simp [same]
      have skipped : (c.item == net.item) = false := by simpa using Ne.symm other
      refine ⟨first, last, ?_, ?_, before, after⟩
      · rw [List.find?_cons, skipped, ← isFirst, List.find?_filter]
        simp only [← Bool.and_eq_true, Bool.decide_eq_true, own]
      · rw [List.filter_cons, skipped, if_neg Bool.false_ne_true, ← isLast, List.filter_filter]
        simp only [Bool.and_comm (_ == _), own]

end NetOf

theorem netOf_netChanges : ∀ changes, NetOf changes (netChanges changes)
  | [] => .nil
  | c :: rest => by
    rw [netChanges_cons]
    exact (netOf_netChanges (rest.filter (·.item != c.item))).cons
termination_by changes => changes.length
decreasing_by exact Nat.lt_succ_of_le (List.length_filter_le _ _)

/-! ## What a net change did -/

/-- How a net change is reported: the kind by the states that there are, and by the paths when the two
    states differ, and the state with it. -/
inductive Shown (net : Change) : ModificationKind → Option String → Prop
  | added {after : String} : net.before.state = none → net.after.state = some after → Shown net .added (some after)
  | deleted {before : String} :
      net.before.state = some before → net.after.state = none → Shown net .deleted (some before)
  | unchanged {state : String} :
      net.before.state = some state → net.after.state = some state → Shown net .unchanged none
  | moved {before after path new : String} :
      net.before.state = some before → net.after.state = some after → before ≠ after →
      net.before.path = some path → net.after.path = some new → path ≠ new → Shown net .movedAndModified (some after)
  /-- Both paths are the same, or one of them is not known. -/
  | modified {before after : String} :
      net.before.state = some before → net.after.state = some after → before ≠ after →
      (∀ path new, net.before.path = some path → net.after.path = some new → path = new) →
      Shown net .modified (some after)

namespace Change

theorem isMove_iff : net.isMove = true ↔
    ∃ path new, net.before.path = some path ∧ net.after.path = some new ∧ path ≠ new := by
  unfold isMove
  cases net.before.path with
  | none => simp
  | some path =>
    cases net.after.path with
    | none => simp
    | some new => simp

/-- A net change has an effect unless the versionable exists on neither side. -/
theorem effect?_eq_none : net.effect? = none ↔ net.before.state = none ∧ net.after.state = none := by
  unfold effect?
  cases net.before.state with
  | none => cases net.after.state <;> simp
  | some before =>
    cases net.after.state with
    | none => simp
    | some after => by_cases same : before = after <;> simp [same]

theorem shown_of_effect? {kind : ModificationKind} {state : Option String} (h : net.effect? = some (kind, state)) :
    Shown net kind state := by
  unfold effect? at h
  split at h
  · cases h
  · next after before' after' =>
    cases h
    exact .added before' after'
  · next before before' after' =>
    cases h
    exact .deleted before' after'
  · next before after before' after' =>
    split at h
    · next same =>
      cases h
      exact .unchanged before' (same ▸ after')
    · next differ =>
      split at h
      · next move =>
        cases h
        obtain ⟨path, new, path', new', other⟩ := isMove_iff.1 move
        exact .moved before' after' differ path' new' other
      · next stay =>
        cases h
        refine .modified before' after' differ fun path new path' new' => ?_
        exact Classical.byContradiction fun other => stay (isMove_iff.2 ⟨path, new, path', new', other⟩)

end Change

/-- Only what did not change is shown without a state. -/
theorem Shown.state_eq_none {kind : ModificationKind} {state : Option String} (h : Shown net kind state) :
    state = none ↔ kind = .unchanged := by
  cases h <;> simp

structure Describes (net : Change) (v : ItemChange) : Prop where
  item : v.item = net.item
  path : v.path = match net.after.path, net.before.path with
    | some after, _ => after
    | none, some before => before
    | none, none => "<unknown>"
  shown : Shown net v.kind v.state
  stateless : v.state = none ↔ v.kind = .unchanged

/-- A net change is reported unless the versionable exists on neither side. -/
theorem describes_of? {v : ItemChange} (h : ItemChange.of? net = some v) : Describes net v := by
  unfold ItemChange.of? at h
  obtain ⟨⟨kind, state⟩, effect, rfl⟩ := Option.map_eq_some_iff.1 h
  have shown := Change.shown_of_effect? effect
  refine ⟨rfl, ?_, shown, shown.state_eq_none⟩
  unfold Change.path?
  cases net.after.path with
  | some after => rfl
  | none => cases net.before.path <;> rfl

def Change.isPresent (net : Change) : Bool := net.before.state.isSome || net.after.state.isSome

theorem isSome_of? : (ItemChange.of? net).isSome = net.isPresent := by
  unfold ItemChange.of? Change.isPresent
  rw [Option.isSome_map, Bool.eq_iff_iff, Option.isSome_iff_ne_none, ne_eq, Change.effect?_eq_none]
  cases net.before.state <;> cases net.after.state <;> simp

/-! ## Change sets -/

theorem forall₂_filterMap {α β : Type} (f : α → Option β) (l : List α) :
    List.Forall₂ (fun a b => f a = some b) (l.filter fun a => (f a).isSome) (l.filterMap f) := by
  induction l with
  | nil => exact .nil
  | cons a rest ih =>
    cases made : f a with
    | none =>
      rw [List.filter_cons_of_neg (by simp [made]), List.filterMap_cons_none made]
      exact ih
    | some b =>
      rw [List.filter_cons_of_pos (by simp [made]), List.filterMap_cons_some made]
      exact .cons made ih

/-- The versionables of a change set are reported in the order of their net changes. -/
theorem describes_itemChanges (c : ChangeSet) : List.Forall₂ Describes
    ((netChanges c.changes).filter Change.isPresent) (ReportedChangeSet.itemChanges c) := by
  have made := forall₂_filterMap ItemChange.of? (netChanges c.changes)
  simp only [isSome_of?] at made
  exact made.imp fun _ _ => describes_of?

structure Summarises (c : ChangeSet) (versionables : List ItemChange) (e : ReportedChangeSet) : Prop where
  /-- The versionables are those of the net changes that have a state. -/
  described : ∃ nets, NetOf c.changes nets ∧ List.Forall₂ Describes (nets.filter Change.isPresent) versionables
  /-- Their number, which a word holds unless there are more than memory has room for. -/
  count : e.count.toNat = versionables.length % UInt64.size
  tooMany : e.tooMany = true ↔ 256 < versionables.length
  dropped : e.tooMany = true → e.changes = []
  listed : e.tooMany = false → e.changes = versionables
  /-- The first work item is set apart from the others. -/
  workItems : e.workItem.toList ++ e.otherWorkItems = c.workItems
  primary : e.workItem = none → c.workItems = []
  kept : e.id = c.id ∧ e.component = c.component ∧ e.comment = c.comment ∧ e.timestamp = c.timestamp

/-- A change set is reported by the net change of each of its versionables. -/
theorem summarises_of (c : ChangeSet) : Summarises c (ReportedChangeSet.itemChanges c) (.of c) where
  described := ⟨netChanges c.changes, netOf_netChanges _, describes_itemChanges c⟩
  count := UInt64.toNat_ofNat'
  tooMany := decide_eq_true_iff
  dropped many := if_pos (decide_eq_true_iff.1 many)
  listed few := if_neg (of_decide_eq_false few)
  workItems := by
    show c.workItems.head?.toList ++ c.workItems.tail = c.workItems
    cases c.workItems <;> rfl
  primary none := List.head?_eq_none_iff.1 none
  kept := ⟨rfl, rfl, rfl, rfl⟩

end SandboxFetch
