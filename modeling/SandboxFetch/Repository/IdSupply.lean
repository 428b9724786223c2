/-
  SandboxFetch.Repository.IdSupply — ids for items that were given none.

  The ids of a supply have the form of random UUIDs: a stem that is drawn once, and a number that
  counts up. A supply knows ids that are taken and passes over them, so an id that is drawn is none
  of them (`draw_notMem`), and no id is drawn twice (`draw_next`, `idAt_inj`).
-/

import SandboxFetch.Component
import SandboxFetch.Text.Numeral

namespace SandboxFetch

structure IdSupply where
  /-- What all ids of the supply begin with. -/
  stem : List Char
  /-- The number of the next id. -/
  next : Nat := 0
  /-- Ids that are not to be drawn. -/
  taken : List ItemId := []
  deriving DecidableEq, Repr

namespace IdSupply

/-- The supply that belongs to a random number, of which 72 bits count. -/
def ofSeed (seed : Nat) : IdSupply :=
  let digits := (List.range 18).map fun i => Text.hexDigit ((seed >>> (4 * i)) % 16)
  { stem := digits.take 8 ++ '-' :: (digits.drop 8).take 4 ++ '-' :: '4' :: (digits.drop 12).take 3 ++
      '-' :: '9' :: digits.drop 15 ++ ['-'] }

def without (s : IdSupply) (ids : List ItemId) : IdSupply := { s with taken := ids ++ s.taken }

def idAt (stem : List Char) (n : Nat) : ItemId := String.ofList (stem ++ Text.padded 12 n)

theorem idAt_inj {stem : List Char} {m n : Nat} (h : idAt stem m = idAt stem n) : m = n :=
  Text.padded_inj (List.append_cancel_left (String.ofList_injective h))

/-- The first number, from `n` on, whose id is not taken. -/
def firstFree (stem : List Char) (n : Nat) (taken : List ItemId) : Nat :=
  if idAt stem n ∈ taken then firstFree stem (n + 1) (taken.erase (idAt stem n)) else n
termination_by taken.length
decreasing_by
  rename_i h
  have := List.length_pos_of_mem h
  rw [List.length_erase_of_mem h]
  omega

theorem le_firstFree (stem : List Char) (n : Nat) (taken : List ItemId) : n ≤ firstFree stem n taken := by
  fun_induction firstFree stem n taken with
  | case1 n taken _ ih => omega
  | case2 => exact Nat.le_refl _

theorem idAt_firstFree_notMem (stem : List Char) (n : Nat) (taken : List ItemId) :
    idAt stem (firstFree stem n taken) ∉ taken := by
  fun_induction firstFree stem n taken with
  | case1 n taken _ ih =>
    intro h
    refine ih ((List.mem_erase_of_ne fun e => ?_).2 h)
    have := le_firstFree stem (n + 1) (taken.erase (idAt stem n))
    have := idAt_inj e
    omega
  | case2 n taken h => exact h

/-- The next id that is not taken, and the supply after it. -/
def draw (s : IdSupply) : ItemId × IdSupply :=
  let n := firstFree s.stem s.next s.taken
  (idAt s.stem n, { s with next := n + 1 })

theorem draw_notMem (s : IdSupply) : s.draw.1 ∉ s.taken := idAt_firstFree_notMem _ _ _

/-- What is drawn is numbered from `next` on and below the `next` of the supply after it. -/
theorem draw_next (s : IdSupply) : ∃ n, s.draw.1 = idAt s.stem n ∧ s.next ≤ n ∧ n < s.draw.2.next :=
  ⟨_, rfl, le_firstFree .., Nat.lt_succ_self _⟩

end IdSupply

end SandboxFetch
