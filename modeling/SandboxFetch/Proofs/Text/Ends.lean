/-
  SandboxFetch.Proofs.Text.Ends — texts that are stripped at their ends.

  What is stripped off a text stands before and behind what is left (`exists_stripped`), and more of it
  there makes no difference (`stripEnds_pad`). Behind something that is not stripped, only the end is
  (`stripEnds_append`).
-/

import Mathlib.Data.List.DropRight
import SandboxFetch.Text.Blank

namespace SandboxFetch.Text

variable {p : Char → Bool} {xs zs core us vs : List Char}

/-- What is added at the ends is stripped again. -/
theorem stripEnds_pad (before : ∀ c ∈ us, p c = true) (after : ∀ c ∈ vs, p c = true) :
    stripEnds p (us ++ xs ++ vs) = stripEnds p xs := by
  unfold stripEnds
  rw [List.append_assoc, List.dropWhile_append_of_pos before, List.dropWhile_append]
  split
  · next empty =>
    rw [List.isEmpty_iff.1 empty, List.dropWhile_eq_nil_iff.2 after]
  · rw [List.reverse_append, List.dropWhile_append_of_pos (by simpa using after)]

/-- A text that neither starts nor ends in a class is not stripped of anything that stands before it. -/
theorem stripEnds_append (inner : core ≠ []) (first : ∀ c ∈ core.head?, p c = false)
    (last : ∀ c ∈ core.getLast?, p c = false) : stripEnds p (core ++ zs) = core ++ zs.rdropWhile p := by
  have front : (core ++ zs).dropWhile p = core ++ zs := by
    cases core with
    | nil => exact absurd rfl inner
    | cons c rest => simp [first c rfl]
  have back : core.reverse.dropWhile p = core.reverse := by
    cases turned : core.reverse with
    | nil => rfl
    | cons c rest =>
      have there : core.getLast? = some c := by
        rw [← List.head?_reverse, turned]
        rfl
      simp [last c there]
  unfold stripEnds List.rdropWhile
  rw [front, List.reverse_append, List.dropWhile_append]
  split
  · next empty => simp [List.isEmpty_iff.1 empty, back]
  · simp

/-- What is stripped off a text stands before and behind what is left. -/
theorem exists_stripped (p : Char → Bool) (cs : List Char) :
    ∃ us vs, cs = us ++ stripEnds p cs ++ vs ∧ (∀ c ∈ us, p c = true) ∧ ∀ c ∈ vs, p c = true := by
  refine ⟨cs.takeWhile p, (cs.dropWhile p).rtakeWhile p, ?_, fun c => List.mem_takeWhile_imp, ?_⟩
  · have stripped : stripEnds p cs = (cs.dropWhile p).rdropWhile p := rfl
    rw [stripped, List.append_assoc, List.rdropWhile_append_rtakeWhile, List.takeWhile_append_dropWhile]
  · exact fun c => List.mem_rtakeWhile_imp

end SandboxFetch.Text
