/-
  SandboxFetch.Proofs.Path.Segments — the segments of a path, and its steps.

  A segment that is empty or `.` is idle: it stays in its directory. Where a path leads depends on
  whether it is absolute and on its other segments (`moves`), and both can be read off its steps
  (`isAbsolute_eq`, `moves_segments`). Appending a relative path appends its moves (`moves_push`),
  and a path that is written from the first steps of another one has just these steps
  (`steps_ofSteps_take`). Of two paths without `..`, one behind the other has none either
  (`Forward.push`).
-/

import Mathlib.Data.List.Induction
import SandboxFetch.Path

namespace SandboxFetch.Path

variable {p q : Path} {s : String} {segs rest xs ys : List String}

/-! ## Idle segments -/

abbrev Idle (s : String) : Prop := s = "" ∨ s = "."

def moves (segs : List String) : List String := segs.filter (¬ Idle ·)

theorem moves_append (xs ys : List String) : moves (xs ++ ys) = moves xs ++ moves ys := List.filter_append _ _

theorem moves_idle (idle : Idle s) : moves (s :: rest) = moves rest := by
  unfold moves
  rw [List.filter_cons_of_neg (by simp only [idle, not_true_eq_false, decide_false, Bool.false_eq_true, not_false_eq_true])]

theorem moves_cons (busy : ¬ Idle s) : moves (s :: rest) = s :: moves rest := by
  unfold moves
  rw [List.filter_cons_of_pos (by simp only [busy, not_false_eq_true, decide_true])]

theorem idle_of_moves_eq_nil (h : moves segs = []) : ∀ s ∈ segs, Idle s := by
  intro s member
  by_contra busy
  have kept : s ∈ moves segs := List.mem_filter.2 ⟨member, decide_eq_true busy⟩
  rw [h] at kept
  cases kept

/-- The first segment that moves comes behind some that do not. -/
theorem of_moves_eq_cons (h : moves segs = s :: xs) :
    ∃ idles rest, (∀ x ∈ idles, Idle x) ∧ segs = idles ++ s :: rest ∧ moves rest = xs := by
  obtain ⟨idles, rest, same, skipped, -, kept⟩ := List.filter_eq_cons_iff.1 h
  refine ⟨idles, rest, fun x member => ?_, same, kept⟩
  by_contra busy
  exact skipped x member (decide_eq_true busy)

/-! ## Text -/

theorem segments_ofList (cs : List Char) : segments ⟨String.ofList cs⟩ = (cs.splitOn '/').map String.ofList := by
  rw [segments, String.toList_ofList]

theorem segments_append (before after : List Char) :
    segments ⟨String.ofList (before ++ '/' :: after)⟩ =
      segments ⟨String.ofList before⟩ ++ segments ⟨String.ofList after⟩ := by
  simp only [segments_ofList, List.splitOn_append_cons_self, List.map_append]

theorem segments_of_notMem (h : '/' ∉ s.toList) : segments ⟨s⟩ = [s] := by
  rw [segments, List.splitOn_eq_singleton h, List.map_singleton, String.ofList_toList]

theorem isAbsolute_of_notMem (h : '/' ∉ s.toList) : isAbsolute ⟨s⟩ = false := by
  unfold isAbsolute
  rw [beq_eq_false_iff_ne]
  exact fun slash => h (List.mem_of_head? slash)

/-- No piece has a separator. -/
theorem of_mem_splitOnP {separates : Char → Bool} {cs piece : List Char} (h : piece ∈ cs.splitOnP separates) :
    ∀ c ∈ piece, separates c = false := by
  induction cs generalizing piece with
  | nil =>
    rw [List.splitOnP_nil] at h
    rw [List.mem_singleton.1 h]
    exact fun _ => nofun
  | cons d rest ih =>
    rw [List.splitOnP_cons_eq_if_modifyHead] at h
    split at h
    · rcases List.mem_cons.1 h with rfl | h
      · exact fun _ => nofun
      · exact ih h
    · next other =>
      cases pieces : rest.splitOnP separates with
      | nil => exact absurd pieces (List.splitOnP_ne_nil _ rest)
      | cons first others =>
        rw [pieces] at h ih
        rcases List.mem_cons.1 h with rfl | h
        · intro c member
          rcases List.mem_cons.1 member with rfl | member
          · simpa using other
          · exact ih List.mem_cons_self c member
        · exact ih (List.mem_cons_of_mem _ h)

theorem notMem_of_mem_splitOn {cs piece : List Char} {c : Char} (h : piece ∈ cs.splitOn c) : c ∉ piece := by
  intro member
  have other := of_mem_splitOnP h c member
  simp at other

theorem notMem_of_mem_segments (h : s ∈ p.segments) : '/' ∉ s.toList := by
  obtain ⟨piece, member, rfl⟩ := List.mem_map.1 h
  rw [String.toList_ofList]
  exact notMem_of_mem_splitOn member

theorem head?_splitOn (cs : List Char) (c : Char) : (cs.splitOn c).head? = some (cs.takeWhile (· != c)) := by
  induction cs with
  | nil => rfl
  | cons d rest ih =>
    rw [List.splitOn_cons_eq_if_modifyHead]
    by_cases same : d = c
    · simp [same]
    · simp [same, List.head?_modifyHead, ih]

theorem takeWhile_append_cons (xs ys : List Char) (c : Char) :
    (xs ++ c :: ys).takeWhile (· != c) = xs.takeWhile (· != c) := by
  induction xs with
  | nil => simp
  | cons x xs ih =>
    by_cases same : x = c
    · simp [same]
    · simp [same, ih]

/-! ## Appending -/

theorem isEmpty_iff : p.isEmpty = true ↔ p.text.toList = [] := by simp [isEmpty]

theorem eq_empty (h : p.isEmpty = true) : p = ⟨""⟩ := by
  obtain ⟨text⟩ := p
  have none := isEmpty_iff.1 h
  rw [← String.ofList_toList (s := text), none]

theorem empty_push (p : Path) : push ⟨""⟩ p = p := by
  unfold push
  split
  · rfl
  · simp [isEmpty]

/-- A relative path is put behind a separator: the one that a path ends in, or a new one. -/
theorem push_eq (inner : p.isEmpty = false) (relative : q.isAbsolute = false) :
    ∃ cs, p.push q = ⟨String.ofList (cs ++ '/' :: q.text.toList)⟩ ∧
      (p.text.toList = cs ∨ p.text.toList = cs ++ ['/']) := by
  unfold push
  rw [relative, if_neg Bool.false_ne_true, inner, Bool.false_or]
  split
  · next slash =>
    obtain ⟨cs, last⟩ := List.getLast?_eq_some_iff.1 (eq_of_beq slash)
    refine ⟨cs, ?_, .inr last⟩
    congr 1
    rw [← String.toList_inj]
    simp [last]
  · refine ⟨p.text.toList, ?_, .inl rfl⟩
    congr 1
    rw [← String.toList_inj]
    simp

theorem moves_push (relative : q.isAbsolute = false) :
    moves (p.push q).segments = moves p.segments ++ moves q.segments := by
  cases inner : p.isEmpty with
  | true =>
    obtain rfl := eq_empty inner
    rw [empty_push]
    rfl
  | false =>
    obtain ⟨cs, pushed, same | slash⟩ := push_eq inner relative
    · rw [pushed, segments_append, moves_append, ← same, String.ofList_toList, String.ofList_toList]
    · have before : p.segments = segments ⟨String.ofList cs⟩ ++ [""] := by
        rw [segments, slash, List.splitOn_append_cons_self, List.map_append, ← segments_ofList]
        rfl
      have last : moves [""] = [] := by decide
      rw [pushed, segments_append, moves_append, before, moves_append, last, List.append_nil, String.ofList_toList]

/-- How a path begins does not change by what is appended. -/
theorem head?_push (inner : p.isEmpty = false) (relative : q.isAbsolute = false) :
    (p.push q).isAbsolute = p.isAbsolute ∧ (p.push q).segments.head? = p.segments.head? := by
  obtain ⟨cs, pushed, text⟩ := push_eq inner relative
  have first : p.segments.head? = some (String.ofList (cs.takeWhile (· != '/'))) := by
    rw [segments, List.head?_map, head?_splitOn]
    rcases text with text | text
    · rw [text, Option.map_some]
    · rw [text, takeWhile_append_cons, Option.map_some]
  have start : p.text.toList.head? = (cs ++ '/' :: q.text.toList).head? := by
    cases cs with
    | nil =>
      rcases text with text | text
      · rw [isEmpty_iff.2 text] at inner
        cases inner
      · rw [text]
        rfl
    | cons c rest =>
      rcases text with text | text <;> rw [text] <;> rfl
  constructor
  · rw [isAbsolute, isAbsolute, start, pushed, String.toList_ofList]
  · rw [first, pushed, segments_ofList, List.head?_map, head?_splitOn, takeWhile_append_cons, Option.map_some]

/-! ## Steps -/

/-- The segment that a step was made from; a start has none. -/
def Step.segment? : Step → Option String
  | .root | .current => none
  | .parent => some ".."
  | .name s => some s

theorem ofSegment?_idle (idle : Idle s) : Step.ofSegment? s = none := by
  unfold Step.ofSegment?
  rw [if_pos (by simpa [Idle] using idle)]

theorem ofSegment?_busy (busy : ¬ Idle s) : ∃ x, Step.ofSegment? s = some x ∧ x.segment? = some s ∧ x.text = s := by
  unfold Step.ofSegment?
  rw [if_neg (by simpa [Idle] using busy)]
  split
  · next up =>
    subst up
    exact ⟨.parent, rfl, rfl, rfl⟩
  · exact ⟨.name s, rfl, rfl, rfl⟩

theorem filterMap_moves (segs : List String) : (moves segs).filterMap Step.ofSegment? = segs.filterMap Step.ofSegment? := by
  induction segs with
  | nil => rfl
  | cons s rest ih =>
    by_cases idle : Idle s
    · rw [moves_idle idle, List.filterMap_cons_none (ofSegment?_idle idle), ih]
    · obtain ⟨x, made, -, -⟩ := ofSegment?_busy idle
      rw [moves_cons idle, List.filterMap_cons_some made, List.filterMap_cons_some made, ih]

theorem filterMap_segment? (segs : List String) :
    (segs.filterMap Step.ofSegment?).filterMap Step.segment? = moves segs := by
  induction segs with
  | nil => rfl
  | cons s rest ih =>
    by_cases idle : Idle s
    · rw [moves_idle idle, List.filterMap_cons_none (ofSegment?_idle idle), ih]
    · obtain ⟨x, made, segment, -⟩ := ofSegment?_busy idle
      rw [moves_cons idle, List.filterMap_cons_some made, List.filterMap_cons_some segment, ih]

def front (p : Path) : List Step :=
  if p.isAbsolute then [.root] else if p.segments.head? == some "." then [.current] else []

theorem steps_eq (p : Path) : p.steps = p.front ++ p.segments.filterMap Step.ofSegment? := rfl

/-- The moves of a path can be read off its steps. -/
theorem moves_segments (p : Path) : moves p.segments = p.steps.filterMap Step.segment? := by
  have start : p.front.filterMap Step.segment? = [] := by
    unfold front
    split
    · rfl
    · split <;> rfl
  rw [steps_eq, List.filterMap_append, start, filterMap_segment?, List.nil_append]

/-- A step behind the front is that of a segment, and as a path it has just this step. -/
theorem of_mem_filterMap {x : Step} (h : x ∈ p.segments.filterMap Step.ofSegment?) :
    x.segment? = some x.text ∧ ¬ Idle x.text ∧ isAbsolute ⟨x.text⟩ = false ∧
      segments ⟨x.text⟩ = [x.text] ∧ Step.ofSegment? x.text = some x := by
  obtain ⟨s, member, made⟩ := List.mem_filterMap.1 h
  have bare := notMem_of_mem_segments member
  have busy : ¬ Idle s := by
    intro idle
    rw [ofSegment?_idle idle] at made
    cases made
  obtain ⟨y, made', segment, text⟩ := ofSegment?_busy busy
  obtain rfl : x = y := Option.some.inj (made.symm.trans made')
  rw [text]
  exact ⟨segment, busy, isAbsolute_of_notMem bare, segments_of_notMem bare, made⟩

theorem isAbsolute_eq (p : Path) : p.isAbsolute = (p.steps.head? == some .root) := by
  rw [steps_eq, front]
  split
  · next absolute =>
    rw [absolute]
    rfl
  · next relative =>
    rw [Bool.not_eq_true] at relative
    rw [relative]
    split
    · rfl
    · rw [List.nil_append, eq_comm, beq_eq_false_iff_ne]
      intro first
      have segment := (of_mem_filterMap (List.mem_of_head? first)).1
      cases segment

theorem steps_push (inner : p.isEmpty = false) (relative : q.isAbsolute = false) :
    (p.push q).steps = p.steps ++ q.segments.filterMap Step.ofSegment? := by
  obtain ⟨absolute, first⟩ := head?_push inner relative
  rw [steps_eq, steps_eq, front, front, absolute, first, ← filterMap_moves, moves_push relative, List.filterMap_append,
    filterMap_moves, filterMap_moves, List.append_assoc]

/-- A single segment is the text of its only step, or it is empty. -/
theorem map_text_steps (bare : '/' ∉ s.toList) : (steps ⟨s⟩).map Step.text = if s = "" then [] else [s] := by
  rw [steps_eq, front, isAbsolute_of_notMem bare, segments_of_notMem bare, if_neg Bool.false_ne_true]
  by_cases dot : s = "."
  · rw [dot]
    rfl
  · rw [if_neg (by simpa using dot), List.nil_append]
    by_cases none : s = ""
    · rw [none]
      rfl
    · obtain ⟨x, made, -, text⟩ := ofSegment?_busy (not_or.2 ⟨none, dot⟩)
      rw [if_neg none, List.filterMap_cons_some made, List.filterMap_nil, List.map_singleton, text]

/-- Single segments at the same place are the same. -/
theorem eq_of_steps_eq {t : String} (bare : '/' ∉ s.toList) (bare' : '/' ∉ t.toList) (same : steps ⟨s⟩ = steps ⟨t⟩) :
    s = t := by
  have texts := congrArg (List.map Step.text) same
  rw [map_text_steps bare, map_text_steps bare'] at texts
  split at texts
  · next none =>
    split at texts
    · next none' => rw [none, none']
    · cases texts
  · split at texts
    · cases texts
    · exact List.singleton_inj.1 texts

/-! ## Paths of steps -/

theorem ofSteps_concat (xs : List Step) (x : Step) : ofSteps (xs ++ [x]) = (ofSteps xs).push ⟨x.text⟩ := by
  unfold ofSteps
  rw [List.foldl_append]
  rfl

theorem steps_empty : steps ⟨""⟩ = [] := by decide

theorem isEmpty_of_steps (h : p.steps ≠ []) : p.isEmpty = false := by
  cases empty : p.isEmpty with
  | false => rfl
  | true => exact absurd (eq_empty empty ▸ steps_empty) h

/-- Only the empty path has no steps. -/
theorem isEmpty_of_steps_eq_nil (h : p.steps = []) : p.isEmpty = true := by
  obtain ⟨start, none⟩ := List.append_eq_nil_iff.1 ((steps_eq p).symm.trans h)
  unfold front at start
  split at start
  · cases start
  · next relative =>
    split at start
    · cases start
    · next undotted =>
      have still : moves p.segments = [] := by
        rw [moves_segments, h]
        rfl
      have first : p.segments.head? = some (String.ofList (p.text.toList.takeWhile (· != '/'))) := by
        rw [segments, List.head?_map, head?_splitOn, Option.map_some]
      rcases idle_of_moves_eq_nil still _ (List.mem_of_head? first) with empty | dot
      · rw [isEmpty_iff]
        cases text : p.text.toList with
        | nil => rfl
        | cons c rest =>
          have notSlash : c ≠ '/' := by
            rintro rfl
            exact relative (by simp [isAbsolute, text])
          rw [text, List.takeWhile_cons_of_pos (by simpa using notSlash), ← String.toList_inj, String.toList_ofList] at empty
          cases empty
      · rw [first, dot] at undotted
        exact absurd rfl undotted

/-- A path that ends in the root is the root. -/
theorem steps_eq_root (h : p.steps.getLast? = some .root) : p.steps = [.root] := by
  rcases List.eq_nil_or_concat (p.segments.filterMap Step.ofSegment?) with none | ⟨outer, x, more⟩
  · rw [steps_eq, none, List.append_nil] at h ⊢
    unfold front at h ⊢
    split at h
    · rw [if_pos ‹_›]
    · split at h
      · cases h
      · cases h
  · rw [List.concat_eq_append] at more
    rw [steps_eq, more, ← List.append_assoc, List.getLast?_concat, Option.some_inj] at h
    have segment := (of_mem_filterMap (p := p) (x := x) (by simp [more])).1
    rw [h] at segment
    cases segment

/-- What a step is written as has just this step. -/
theorem steps_text {x : Step} (h : x ∈ p.steps) : steps ⟨x.text⟩ = [x] := by
  rw [steps_eq, List.mem_append] at h
  rcases h with h | h
  · unfold front at h
    split at h
    · obtain rfl := List.mem_singleton.1 h
      decide
    · split at h
      · obtain rfl := List.mem_singleton.1 h
        decide
      · cases h
  · obtain ⟨-, busy, relative, whole, made⟩ := of_mem_filterMap h
    have start : front ⟨x.text⟩ = [] := by
      unfold front
      rw [relative, whole, if_neg Bool.false_ne_true, if_neg]
      intro dot
      exact busy (.inr (Option.some.inj (eq_of_beq dot)))
    rw [steps_eq, start, whole, List.nil_append, List.filterMap_cons_some made, List.filterMap_nil]

/-- The steps of a path but the first come from its segments. -/
theorem mem_of_getElem?_succ {n : Nat} {x : Step} (h : p.steps[n + 1]? = some x) :
    x ∈ p.segments.filterMap Step.ofSegment? := by
  have short : p.front.length ≤ n + 1 := by
    unfold front
    split
    · simp
    · split <;> simp
  rw [steps_eq, List.getElem?_append_right short] at h
  exact List.mem_of_getElem? h

/-- A path that is written from the first steps of another one has just these steps. -/
theorem steps_ofSteps_take (p : Path) (n : Nat) : (ofSteps (p.steps.take n)).steps = p.steps.take n := by
  induction n with
  | zero => exact steps_empty
  | succ n ih =>
    cases at_ : p.steps[n]? with
    | none => rw [List.take_add_one, at_, Option.toList_none, List.append_nil, ih]
    | some x =>
      rw [List.take_add_one, at_, Option.toList_some, ofSteps_concat]
      cases n with
      | zero =>
        rw [List.take_zero]
        show (push ⟨""⟩ ⟨x.text⟩).steps = [x]
        rw [empty_push]
        exact steps_text (List.mem_of_getElem? at_)
      | succ n =>
        obtain ⟨-, -, relative, whole, made⟩ := of_mem_filterMap (mem_of_getElem?_succ at_)
        have inner : (ofSteps (p.steps.take (n + 1))).isEmpty = false := by
          refine isEmpty_of_steps ?_
          rw [ih]
          intro none
          rcases List.take_eq_nil_iff.1 none with none | none
          · cases none
          · rw [none] at at_
            cases at_
        rw [steps_push inner relative, ih, whole, List.filterMap_cons_some made, List.filterMap_nil]

/-! ## Paths without `..` -/

/-- A path that never leaves a directory again. -/
def Forward (p : Path) : Prop := ".." ∉ p.segments

instance (p : Path) : Decidable p.Forward := inferInstanceAs (Decidable (_ ∉ _))

theorem forward_iff_moves : p.Forward ↔ ".." ∉ moves p.segments := by
  have busy : ¬ Idle ".." := by decide
  unfold Forward moves
  rw [List.mem_filter]
  simp only [busy, not_false_eq_true, decide_true, and_true]

theorem forward_iff_steps : p.Forward ↔ Step.parent ∉ p.steps := by
  rw [forward_iff_moves, moves_segments, List.mem_filterMap]
  constructor
  · exact fun forward up => forward ⟨.parent, up, rfl⟩
  · rintro forward ⟨x, member, segment⟩
    -- a name is never made from `..`
    have parent : x = .parent := by
      rw [steps_eq, List.mem_append] at member
      rcases member with start | member
      · unfold front at start
        split at start
        · obtain rfl := List.mem_singleton.1 start
          cases segment
        · split at start
          · obtain rfl := List.mem_singleton.1 start
            cases segment
          · cases start
      · obtain ⟨segment', -, -, -, made⟩ := of_mem_filterMap member
        rw [Option.some.inj (segment'.symm.trans segment)] at made
        exact (Option.some.inj made).symm
    exact forward (parent ▸ member)

/-- Paths without `..`, one behind the other. -/
theorem Forward.push (hp : p.Forward) (hq : q.Forward) : (p.push q).Forward := by
  by_cases absolute : q.isAbsolute = true
  · unfold Path.push
    rwa [if_pos absolute]
  · rw [forward_iff_moves] at hp hq ⊢
    rw [moves_push (by simpa using absolute), List.mem_append, not_or]
    exact ⟨hp, hq⟩

/-- The first steps of a path without `..` are those of one without it. -/
theorem Forward.take {n : Nat} (hp : p.Forward) (first : q.steps = p.steps.take n) : q.Forward := by
  rw [forward_iff_steps] at hp ⊢
  rw [first]
  exact fun up => hp (List.mem_of_mem_take up)

end SandboxFetch.Path
