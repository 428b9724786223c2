/-
  SandboxFetch.Proofs.Repository.Deal — pending change sets dealt out to accepts.

  A `Deal` says for each change set that was pending at a start which accept took it, if one did, so
  that no change set can go to two of them. The accepts are numbered in their order. The next one
  takes what is left of its components (`take`): that and what it leaves are read off the deal
  (`dealtTo_take_self`, `leftAfter_take_self`), and what earlier ones took and left stays as it was
  (`dealtTo_take_of_lt`, `leftAfter_take_of_lt`).
-/

import SandboxFetch.ChangeSet

namespace SandboxFetch

/-! ## Dealing out -/

/-- Pending change sets, each with the number of the accept that took it, if one did. -/
abbrev Deal := List (ChangeSet × Option Nat)

namespace Deal

def dealtTo (d : Deal) (k : Nat) : List ChangeSet := (d.filter fun e => e.2 == some k).map (·.1)

def leftAfter (d : Deal) (k : Nat) : List ChangeSet := (d.filter fun e => e.2.all (k < ·)).map (·.1)

def left (d : Deal) : List ChangeSet := (d.filter fun e => e.2.isNone).map (·.1)

/-- The deal after the accept with a number took what is left of some components. -/
def take (d : Deal) (k : Nat) (ids : List ItemId) : Deal :=
  d.map fun e => if e.2.isNone && ids.contains e.1.component.id then (e.1, some k) else e

def Below (d : Deal) (n : Nat) : Prop := ∀ e ∈ d, ∀ k ∈ e.2, k < n

variable {d : Deal} {n : Nat} {ids : List ItemId}

/-- Filtering the deal after an accept is filtering the deal before it. -/
theorem filter_take (p : Option Nat → Bool) :
    ((d.take n ids).filter fun e => p e.2).map (·.1) =
      (d.filter fun e => if e.2.isNone && ids.contains e.1.component.id then p (some n) else p e.2).map (·.1) := by
  unfold take
  rw [List.filter_map, List.map_map]
  have fst : ((·.1) ∘ fun e : ChangeSet × Option Nat =>
      if e.2.isNone && ids.contains e.1.component.id then (e.1, some n) else e) = (·.1) := by
    funext e
    simp only [Function.comp]
    split <;> rfl
  rw [fst]
  congr 1
  refine List.filter_congr fun e _ => ?_
  simp only [Function.comp]
  split <;> rfl

theorem map_fst_take : (d.take n ids).map (·.1) = d.map (·.1) := by
  unfold take
  rw [List.map_map]
  refine List.map_congr_left fun e _ => ?_
  simp only [Function.comp]
  split <;> rfl

theorem left_take : (d.take n ids).left = d.left.filter fun c => !ids.contains c.component.id := by
  unfold left
  rw [filter_take, List.filter_map, List.filter_filter]
  congr 1
  refine List.filter_congr fun e _ => ?_
  simp only [Function.comp]
  cases e.2 <;> cases ids.contains e.1.component.id <;> rfl

theorem dealtTo_take_self (h : d.Below n) :
    (d.take n ids).dealtTo n = d.left.filter fun c => ids.contains c.component.id := by
  unfold dealtTo left
  rw [filter_take (· == some n), List.filter_map, List.filter_filter]
  congr 1
  refine List.filter_congr fun e he => ?_
  simp only [Function.comp]
  cases ho : e.2 with
  | none => cases ids.contains e.1.component.id <;> simp
  | some k =>
    have := h e he k ho
    simp
    omega

theorem dealtTo_take_of_lt {k : Nat} (h : k < n) : (d.take n ids).dealtTo k = d.dealtTo k := by
  unfold dealtTo
  rw [filter_take (· == some k)]
  congr 1
  refine List.filter_congr fun e _ => ?_
  split
  · next taken =>
    have : e.2 = none := by simpa using (Bool.and_eq_true_iff.1 taken).1
    rw [this]
    simp
    omega
  · rfl

theorem leftAfter_take_self (h : d.Below n) :
    (d.take n ids).leftAfter n = d.left.filter fun c => !ids.contains c.component.id := by
  unfold leftAfter left
  rw [filter_take (·.all (n < ·)), List.filter_map, List.filter_filter]
  congr 1
  refine List.filter_congr fun e he => ?_
  simp only [Function.comp]
  cases ho : e.2 with
  | none => cases ids.contains e.1.component.id <;> simp
  | some k =>
    have := h e he k ho
    simp
    omega

theorem leftAfter_take_of_lt {k : Nat} (h : k < n) : (d.take n ids).leftAfter k = d.leftAfter k := by
  unfold leftAfter
  rw [filter_take (·.all (k < ·))]
  congr 1
  refine List.filter_congr fun e _ => ?_
  split
  · next taken =>
    have : e.2 = none := by simpa using (Bool.and_eq_true_iff.1 taken).1
    rw [this]
    simp [h]
  · rfl

theorem below_take (h : d.Below n) : (d.take n ids).Below (n + 1) := by
  intro e he k hk
  obtain ⟨e', he', rfl⟩ := List.mem_map.1 he
  split at hk
  · simp at hk
    omega
  · have := h e' he' k hk
    omega

end Deal

end SandboxFetch
