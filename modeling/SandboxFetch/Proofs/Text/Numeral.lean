/-
  SandboxFetch.Proofs.Text.Numeral — the digits that numbers are written with.

  A number is written in decimal digits, of which there is at least one, and no other number than zero
  begins with a zero (`head?_toDigits`). A padded number of enough width has just that many digits
  (`length_padded`).
-/

import Mathlib.Algebra.Group.Nat.Defs
import SandboxFetch.Text.Blank
import SandboxFetch.Text.Numeral

namespace SandboxFetch.Text

variable {n : Nat} {c : Char}

theorem isDigit_of_mem_toDigits (member : c ∈ Nat.toDigits 10 n) : c.isDigit = true :=
  Nat.isDigit_of_mem_toDigits (by decide) (by decide) member

theorem isDigit_of_mem_writeNat (member : c ∈ (writeNat n).toList) : c.isDigit = true := by
  rw [writeNat, String.toList_ofList] at member
  exact isDigit_of_mem_toDigits member

theorem toList_writeNat_ne_nil (n : Nat) : (writeNat n).toList ≠ [] := by
  rw [writeNat, String.toList_ofList]
  exact Nat.toDigits_ne_nil

theorem isDigit_of_mem_padded {width : Nat} (h : c ∈ padded width n) : c.isDigit = true := by
  unfold padded at h
  rcases List.mem_append.1 h with h | h
  · obtain ⟨-, rfl⟩ := List.mem_replicate.1 h
    decide
  · exact isDigit_of_mem_toDigits h

theorem length_padded {width : Nat} (pos : 0 < width) (h : n < 10 ^ width) : (padded width n).length = width := by
  have := (Nat.length_toDigits_le_iff (n := n) (by decide : 1 < 10) pos).2 h
  simp only [padded, List.length_append, List.length_replicate]
  omega

theorem ne_of_isDigit {d : Char} (digit : c.isDigit = true) (other : d.isDigit = false) : c ≠ d := by
  intro same
  rw [same, other] at digit
  cases digit

theorem exists_toDigits (n : Nat) : ∃ d ds, Nat.toDigits 10 n = d :: ds ∧ d.isDigit = true := by
  cases cut : Nat.toDigits 10 n with
  | nil => exact absurd cut Nat.toDigits_ne_nil
  | cons d ds => exact ⟨d, ds, rfl, isDigit_of_mem_toDigits (by rw [cut]; exact List.mem_cons_self)⟩

theorem exists_padded (width n : Nat) : ∃ d ds, padded width n = d :: ds ∧ d.isDigit = true := by
  cases cut : padded width n with
  | nil =>
    have digits : Nat.toDigits 10 n ≠ [] := Nat.toDigits_ne_nil
    simp [padded, digits] at cut
  | cons d ds => exact ⟨d, ds, rfl, isDigit_of_mem_padded (by rw [cut]; exact List.mem_cons_self)⟩

theorem isBlank_of_isDigit (digit : c.isDigit = true) : isBlank c = false := by
  have bounds : 48 ≤ c.toNat ∧ c.toNat ≤ 57 := Char.isDigit_iff_toNat.1 digit
  simp [isBlank]
  omega

/-- Only the number zero begins with a zero. -/
theorem head?_toDigits (pos : 0 < n) : (Nat.toDigits 10 n).head? ≠ some '0' := by
  induction n using Nat.strongRecOn with
  | ind n ih =>
    by_cases small : n < 10
    · have digit : ∀ k < 10, 0 < k → [k.digitChar].head? ≠ some '0' := by decide
      rw [Nat.toDigits_of_lt_base small]
      exact digit n small pos
    · rw [Nat.toDigits_of_base_le (by decide) (by omega), List.head?_append, List.head?_eq_some_head Nat.toDigits_ne_nil,
        Option.some_or, ← List.head?_eq_some_head]
      exact ih (n / 10) (by omega) (by omega)

end SandboxFetch.Text
