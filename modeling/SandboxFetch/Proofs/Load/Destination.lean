/-
  SandboxFetch.Proofs.Load.Destination — the directory that a configured destination means.

  A destination of white space alone is none, and one with a reserved character cannot be used. Any
  other is a directory: the destination as it is written when it is absolute, and otherwise the working
  directory with the segments of the destination behind it, those aside that are empty or `.`
  (`resolveDestination_resolves`). As each of these segments has a character and no separator, none of
  them replaces what is before it (`push_segment`), so the working directory stays at the front.
-/

import SandboxFetch.Proofs.Host
import SandboxFetch.Proofs.Load.Forward
import SandboxFetch.Text.Blank

namespace SandboxFetch

variable {dir workingDir : Path} {host : Host} {destination : String} {s : String} {segs : List String}

/-! ## Segments behind a directory -/

namespace Path

def IsSegment (s : String) : Prop := ¬ Idle s ∧ '/' ∉ s.toList

/-- What stands between a directory and what comes behind it. -/
def gap (dir : Path) : String := if dir.isEmpty || dir.text.toList.getLast? == some '/' then "" else "/"

def behind (dir : Path) (segs : List String) : Path :=
  if segs = [] then dir else ⟨dir.text ++ dir.gap ++ "/".intercalate segs⟩

theorem push_segment (bare : '/' ∉ s.toList) (dir : Path) : dir.push ⟨s⟩ = ⟨dir.text ++ dir.gap ++ s⟩ := by
  unfold push gap
  rw [isAbsolute_of_notMem bare, if_neg Bool.false_ne_true]
  split <;> simp

/-- Behind a segment there is a separator. -/
theorem gap_append (segment : IsSegment s) (front : String) : gap ⟨front ++ s⟩ = "/" := by
  obtain ⟨named, -⟩ := not_or.1 segment.1
  have inner : isEmpty ⟨front ++ s⟩ = false := by
    rw [isEmpty, String.isEmpty_eq_false_iff]
    exact fun none => named (String.append_eq_empty_iff.1 none).2
  have other : (front ++ s).toList.getLast? ≠ some '/' := by
    rw [String.toList_append, List.getLast?_append_of_ne_nil _ (by simpa using named)]
    exact fun slash => segment.2 (List.mem_of_getLast? slash)
  rw [gap, inner, Bool.false_or, if_neg (by simpa using other)]

/-- Segments that are appended one at a time stand behind the directory, separated from each other. -/
theorem foldl_push (segments : ∀ s ∈ segs, IsSegment s) (dir : Path) :
    segs.foldl (fun dir s => dir.push ⟨s⟩) dir = dir.behind segs := by
  unfold behind
  induction segs generalizing dir with
  | nil => rfl
  | cons s rest ih =>
    obtain ⟨first, others⟩ := List.forall_mem_cons.1 segments
    rw [List.foldl_cons, push_segment first.2, ih others, if_neg (List.cons_ne_nil s rest)]
    cases rest with
    | nil => simp
    | cons next rest =>
      rw [if_neg (List.cons_ne_nil next rest), gap_append first, String.intercalate_cons_cons]
      simp only [String.append_assoc]

theorem prefix_behind (dir : Path) (segs : List String) : dir.text.toList <+: (dir.behind segs).text.toList := by
  unfold behind
  split
  · exact List.prefix_rfl
  · rw [String.append_assoc, String.toList_append]
    exact List.prefix_append _ _

/-- Each segment adds its step. -/
theorem steps_foldl_push (segments : ∀ s ∈ segs, IsSegment s) (dir : Path) :
    (segs.foldl (fun dir s => dir.push ⟨s⟩) dir).steps = dir.steps ++ segs.filterMap Step.ofSegment? := by
  induction segs generalizing dir with
  | nil => simp
  | cons s rest ih =>
    obtain ⟨⟨busy, bare⟩, others⟩ := List.forall_mem_cons.1 segments
    obtain ⟨x, made, -, -⟩ := ofSegment?_busy busy
    have first : (dir.push ⟨s⟩).steps = dir.steps ++ [x] := by
      cases inner : dir.isEmpty with
      | true =>
        obtain rfl := eq_empty inner
        rw [empty_push, steps_empty, steps_eq, front, isAbsolute_of_notMem bare, segments_of_notMem bare,
          if_neg Bool.false_ne_true, if_neg (by simpa using (not_or.1 busy).2), List.filterMap_cons_some made]
        rfl
      | false =>
        rw [steps_push inner (isAbsolute_of_notMem bare), segments_of_notMem bare, List.filterMap_cons_some made]
        rfl
    rw [List.foldl_cons, ih others, first, List.filterMap_cons_some made, List.append_assoc]
    rfl

end Path

/-! ## Destinations -/

def leadingSegments (destination : String) (host : Host) : List String :=
  ((destinationSegments destination host).filter fun s => !s.isEmpty && s != ['.']).map String.ofList

theorem isSegment_of_mem (member : s ∈ leadingSegments destination host) : Path.IsSegment s := by
  obtain ⟨piece, kept, rfl⟩ := List.mem_map.1 member
  obtain ⟨among, leads⟩ := List.mem_filter.1 kept
  constructor
  · simpa [Path.Idle, ← String.toList_inj] using leads
  · rw [String.toList_ofList]
    exact bare_of_piece among

/-- A destination that is one: it is not empty, and no character stands where it may not. -/
def Usable (destination : String) (host : Host) : Prop :=
  Text.trim destination ≠ "" ∧ ∀ i c, ¬ Host.ReservedAt (Text.trim destination).toList i host c

theorem resolveDestination_eq : resolveDestination destination workingDir host =
    if Text.trim destination = "" then .error .emptyDestination
    else match host.firstReserved? (Text.trim destination).toList with
      | some c => .error (.invalidDestination (Text.trim destination) c)
      | none =>
        .ok (if host.isAbsolute (Text.trim destination).toList then ⟨Text.trim destination⟩
          else workingDir.behind (leadingSegments destination host)) := by
  have empty : (Text.stripEnds Text.isBlank destination.toList).isEmpty = true ↔ Text.trim destination = "" := by
    rw [List.isEmpty_iff, Text.trim, ← String.toList_inj, String.toList_ofList, String.toList_empty]
  have segments : ∀ s ∈ leadingSegments destination host, Path.IsSegment s := fun _ => isSegment_of_mem
  have pushed := Path.foldl_push segments workingDir
  unfold resolveDestination
  dsimp only
  rw [Text.trim, String.toList_ofList, ← Text.trim]
  simp only [empty]
  split
  · rfl
  · cases host.firstReserved? (Text.stripEnds Text.isBlank destination.toList) with
    | some c => rfl
    | none =>
      dsimp only
      split
      · rfl
      · rw [← pushed, leadingSegments, List.foldl_map]
        rfl

/-- There are three answers, and which one it is depends on the destination alone. -/
theorem resolveDestination_cases (destination : String) (workingDir : Path) (host : Host) :
    (Text.trim destination = "" ∧ resolveDestination destination workingDir host = .error .emptyDestination) ∨
    (Text.trim destination ≠ "" ∧ ∃ i c, Host.ReservedAt (Text.trim destination).toList i host c ∧
      resolveDestination destination workingDir host = .error (.invalidDestination (Text.trim destination) c)) ∨
    (Usable destination host ∧ resolveDestination destination workingDir host =
      .ok (if host.isAbsolute (Text.trim destination).toList then ⟨Text.trim destination⟩
        else workingDir.behind (leadingSegments destination host))) := by
  rw [resolveDestination_eq]
  by_cases empty : Text.trim destination = ""
  · exact .inl ⟨empty, if_pos empty⟩
  · rw [if_neg empty]
    cases found : host.firstReserved? (Text.trim destination).toList with
    | some c =>
      obtain ⟨i, reserved⟩ := Host.reservedAt_of_firstReserved? found
      exact .inr (.inl ⟨empty, i, c, reserved, rfl⟩)
    | none => exact .inr (.inr ⟨⟨empty, Host.firstReserved?_eq_none_iff.1 found⟩, rfl⟩)

theorem resolveDestination_of_usable (usable : Usable destination host) :
    resolveDestination destination workingDir host =
      .ok (if host.isAbsolute (Text.trim destination).toList then ⟨Text.trim destination⟩
        else workingDir.behind (leadingSegments destination host)) := by
  rw [resolveDestination_eq, if_neg usable.1, Host.firstReserved?_eq_none_iff.2 usable.2]

/-- A relative destination is put behind the working directory. -/
theorem resolveDestination_of_not_rooted (usable : Usable destination host)
    (other : ¬ Host.Rooted host (Text.trim destination).toList) :
    resolveDestination destination workingDir host = .ok (workingDir.behind (leadingSegments destination host)) := by
  rw [resolveDestination_of_usable usable, if_neg fun absolute => other (Host.isAbsolute_iff.1 absolute)]

structure Resolves (destination : String) (workingDir : Path) (host : Host) : Prop where
  empty : resolveDestination destination workingDir host = .error .emptyDestination ↔ Text.trim destination = ""
  invalid : (∃ text c, resolveDestination destination workingDir host = .error (.invalidDestination text c)) ↔
    Text.trim destination ≠ "" ∧ ∃ i c, Host.ReservedAt (Text.trim destination).toList i host c
  /-- The error has the destination, and a character that may not stand where it does. -/
  named : ∀ text c, resolveDestination destination workingDir host = .error (.invalidDestination text c) →
    text = Text.trim destination ∧ ∃ i, Host.ReservedAt (Text.trim destination).toList i host c
  absolute : Usable destination host → Host.Rooted host (Text.trim destination).toList →
    resolveDestination destination workingDir host = .ok ⟨Text.trim destination⟩
  relative : Usable destination host → ¬ Host.Rooted host (Text.trim destination).toList →
    resolveDestination destination workingDir host = .ok (workingDir.behind (leadingSegments destination host))
  /-- The working directory stays in front of a relative destination, as a text and as a place. -/
  front : ∀ root, ¬ Host.Rooted host (Text.trim destination).toList →
    resolveDestination destination workingDir host = .ok root → workingDir.text.toList <+: root.text.toList ∧
      root.steps = workingDir.steps ++ (leadingSegments destination host).filterMap Path.Step.ofSegment?
  /-- Two spellings of a relative destination are one. -/
  spelling : ∀ other, Usable destination host → Usable other host →
    ¬ Host.Rooted host (Text.trim destination).toList → ¬ Host.Rooted host (Text.trim other).toList →
    leadingSegments destination host = leadingSegments other host →
    resolveDestination destination workingDir host = resolveDestination other workingDir host

theorem resolveDestination_resolves (destination : String) (workingDir : Path) (host : Host) :
    Resolves destination workingDir host := by
  have segments : ∀ s ∈ leadingSegments destination host, Path.IsSegment s := fun _ => isSegment_of_mem
  have answers := resolveDestination_cases destination workingDir host
  have absolute (usable : Usable destination host) (rooted : Host.Rooted host (Text.trim destination).toList) :
      resolveDestination destination workingDir host = .ok ⟨Text.trim destination⟩ := by
    rw [resolveDestination_of_usable usable, if_pos (Host.isAbsolute_iff.2 rooted)]
  refine ⟨?_, ?_, ?_, absolute, resolveDestination_of_not_rooted, ?_, ?_⟩
  · rcases answers with ⟨empty, answer⟩ | ⟨some, i, c, reserved, answer⟩ | ⟨usable, answer⟩
    · exact iff_of_true answer empty
    · exact iff_of_false (by simp [answer]) some
    · exact iff_of_false (by simp [answer]) usable.1
  · rcases answers with ⟨empty, answer⟩ | ⟨some, i, c, reserved, answer⟩ | ⟨usable, answer⟩
    · exact iff_of_false (by simp [answer]) fun both => both.1 empty
    · exact iff_of_true ⟨_, c, answer⟩ ⟨some, i, c, reserved⟩
    · exact iff_of_false (by simp [answer]) fun ⟨_, i, c, reserved⟩ => usable.2 i c reserved
  · intro text c failed
    rcases answers with ⟨empty, answer⟩ | ⟨some, i, d, reserved, answer⟩ | ⟨usable, answer⟩
    · cases answer.symm.trans failed
    · cases answer.symm.trans failed
      exact ⟨rfl, i, reserved⟩
    · cases answer.symm.trans failed
  · intro root other done
    have usable : Usable destination host := by
      rcases answers with ⟨empty, answer⟩ | ⟨some, i, d, reserved, answer⟩ | ⟨usable, -⟩
      · cases answer.symm.trans done
      · cases answer.symm.trans done
      · exact usable
    cases (resolveDestination_of_not_rooted usable other).symm.trans done
    exact ⟨Path.prefix_behind _ _, by rw [← Path.foldl_push segments, Path.steps_foldl_push segments]⟩
  · intro other usable usable' here there same
    rw [resolveDestination_of_not_rooted usable here, resolveDestination_of_not_rooted usable' there, same]

end SandboxFetch
