/-
  SandboxFetch.Proofs.Path.Lexical — where a path leads by its text alone.

  Without a look at the disk, each `..` takes back the name before it, and the root is its own parent
  (`lexical`). A path is inside another one when its place is that of the other one or below it,
  whatever directory the two are read from (`Inside`). What goes on from a path and never leaves more
  directories than it entered (`descends`) stays inside it, and so does each part of the way
  (`StaysBelow.inside`, `StaysBelow.around`).
-/

import SandboxFetch.Disk.Tree
import SandboxFetch.Proofs.Path.Segments

namespace SandboxFetch

def Location.move (l : Location) (s : String) : Location := if s = ".." then l.dropLast else l ++ [s]

namespace Path

variable {root p q target : Path} {top l : Location} {way rest : List String} {depth : Nat}

/-- Where a path leads from a directory, by its text. -/
def lexical (here : Location) (p : Path) : Location :=
  (moves p.segments).foldl Location.move (if p.isAbsolute then [] else here)

def Inside (root p : Path) : Prop := ∀ here, root.lexical here <+: p.lexical here

/-- Names that are no `..` are put behind a place. -/
theorem foldl_move_of_forward (forward : ".." ∉ way) : way.foldl Location.move l = l ++ way := by
  induction way generalizing l with
  | nil => exact (List.append_nil l).symm
  | cons s rest ih =>
    obtain ⟨name, forward⟩ := not_or.1 (List.mem_cons.not.1 forward)
    rw [List.foldl_cons, ih forward, Location.move, if_neg (Ne.symm name), List.append_assoc]
    rfl

/-- What is appended to a path leads on from where the path leads. -/
theorem lexical_push (relative : p.isAbsolute = false) (here : Location) :
    (root.push p).lexical here = (moves p.segments).foldl Location.move (root.lexical here) := by
  cases inner : root.isEmpty with
  | true =>
    obtain rfl := eq_empty inner
    have stays : lexical here ⟨""⟩ = here := by
      unfold lexical
      rw [show moves (segments ⟨""⟩) = [] by decide]
      rfl
    rw [empty_push, stays]
    unfold lexical
    rw [relative, if_neg Bool.false_ne_true]
  | false =>
    unfold lexical
    rw [(head?_push inner relative).1, moves_push relative, List.foldl_append]

/-- A single segment leads nowhere when it is idle, and else to where it names. -/
theorem lexical_push_segment {s : String} (bare : '/' ∉ s.toList) (here : Location) :
    (root.push ⟨s⟩).lexical here = if Idle s then root.lexical here else (root.lexical here).move s := by
  rw [lexical_push (isAbsolute_of_notMem bare), segments_of_notMem bare]
  split
  · next idle => rw [moves_idle idle]; rfl
  · next busy => rw [moves_cons busy]; rfl

/-! ## Ways that only go down -/

/-- Whether a way that begins some directories deep never leaves more of them. -/
def descends : Nat → List String → Bool
  | _, [] => true
  | 0, s :: rest => s != ".." && descends 1 rest
  | depth + 1, s :: rest => descends (if s = ".." then depth else depth + 2) rest

theorem foldl_move_of_descends {names : List String} (h : descends names.length way = true) :
    top <+: way.foldl Location.move (top ++ names) := by
  induction way generalizing names with
  | nil => exact List.prefix_append _ _
  | cons s rest ih =>
    rw [List.foldl_cons, Location.move]
    by_cases up : s = ".."
    · cases names with
      | nil => simp [descends, up] at h
      | cons name names =>
        rw [if_pos up, List.dropLast_append_of_ne_nil (List.cons_ne_nil _ _)]
        refine ih ?_
        simpa [descends, up] using h
    · rw [if_neg up, List.append_assoc]
      refine ih ?_
      cases names with
      | nil => simpa [descends, up] using h
      | cons name names => simpa [descends, up] using h

/-- The first part of a way that only goes down does so, too. -/
theorem descends_of_prefix (h : descends depth way = true) (first : rest <+: way) : descends depth rest = true := by
  induction rest generalizing depth way with
  | nil => cases depth <;> rfl
  | cons s rest ih =>
    obtain ⟨way, rfl, further⟩ := List.cons_prefix_iff.1 first
    cases depth with
    | zero =>
      simp only [descends, Bool.and_eq_true] at h ⊢
      exact ⟨h.1, ih h.2 further⟩
    | succ depth =>
      rw [descends] at h ⊢
      exact ih h further

/-! ## Below a path -/

/-- A path goes on from another one as it is written, and does not climb above it on the way. -/
structure StaysBelow (root p : Path) : Prop where
  /-- Every path goes on from the empty one, the absolute ones included. -/
  anchored : p.isAbsolute = root.isAbsolute
  behind : root.steps <+: p.steps
  down : descends 0 ((p.steps.drop root.steps.length).filterMap Step.segment?) = true

theorem inside_of_moves (anchored : p.isAbsolute = root.isAbsolute)
    (onwards : moves p.segments = moves root.segments ++ way) (down : descends 0 way = true) : Inside root p := by
  intro here
  unfold lexical
  rw [anchored, onwards, List.foldl_append]
  generalize (moves root.segments).foldl Location.move (if root.isAbsolute then [] else here) = top
  have below : top <+: way.foldl Location.move (top ++ []) := foldl_move_of_descends down
  rwa [List.append_nil] at below

namespace StaysBelow

theorem steps_eq (h : StaysBelow root p) : p.steps = root.steps ++ p.steps.drop root.steps.length :=
  List.prefix_iff_eq_append.1 h.behind |>.symm

theorem inside (h : StaysBelow root p) : Inside root p := by
  refine inside_of_moves h.anchored ?_ h.down
  rw [moves_segments, moves_segments, ← List.filterMap_append, ← h.steps_eq]

/-- A first part of the path that has more steps than the other one stays below it. -/
theorem take {n : Nat} (h : StaysBelow root p) (first : q.steps = p.steps.take n)
    (anchored : q.isAbsolute = root.isAbsolute) (long : root.steps.length ≤ n) : StaysBelow root q := by
  have onwards : q.steps = root.steps ++ (p.steps.drop root.steps.length).take (n - root.steps.length) := by
    rw [first]
    conv_lhs => rw [h.steps_eq]
    rw [List.take_append, List.take_of_length_le long]
  refine ⟨anchored, onwards ▸ List.prefix_append _ _, ?_⟩
  rw [onwards, List.drop_left]
  exact descends_of_prefix h.down ((List.take_prefix _ _).filterMap _)

end StaysBelow

/-- What is appended to a target of the destination stays below it, when it is relative and the way
    behind the destination only goes down. -/
theorem staysBelow_push (begins : target.startsWith root = true) (anchored : target.isAbsolute = root.isAbsolute)
    (relative : p.isAbsolute = false)
    (down : descends 0 ((moves target.segments).drop (moves root.segments).length ++ moves p.segments) = true) :
    StaysBelow root (target.push p) := by
  obtain ⟨behind, steps⟩ := List.isPrefixOf_iff_prefix.1 begins
  have rest : (moves target.segments).drop (moves root.segments).length = behind.filterMap Step.segment? := by
    rw [moves_segments, moves_segments, ← steps, List.filterMap_append, List.drop_left]
  rw [rest] at down
  cases inner : target.isEmpty with
  | true =>
    -- nothing but the empty destination begins the empty target
    obtain rfl := eq_empty inner
    rw [steps_empty, List.append_eq_nil_iff] at steps
    obtain ⟨none, rfl⟩ := steps
    rw [empty_push]
    refine ⟨by rw [relative, ← anchored]; rfl, none ▸ List.nil_prefix, ?_⟩
    rwa [none, List.length_nil, List.drop_zero, ← moves_segments]
  | false =>
    have onwards := steps_push inner relative
    rw [← steps, List.append_assoc] at onwards
    refine ⟨(head?_push inner relative).1.trans anchored, onwards ▸ List.prefix_append _ _, ?_⟩
    rwa [onwards, List.drop_left, List.filterMap_append, filterMap_segment?]

end Path

end SandboxFetch
