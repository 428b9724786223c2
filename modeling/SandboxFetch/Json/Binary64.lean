/-
  SandboxFetch.Json.Binary64 — which decimals fit into double precision.

  A double has 53 significant bits. A natural number is rounded to the nearest one with so many
  bits, and a tie goes to the even one (`round`); numbers of at most 53 bits stay as they are
  (`round_of_lt`). A magnitude is infinite from the point on that lies midway between the largest
  double and the power of two after it (`overflow`).

  A decimal is made of a significand and a power of ten. Both are rounded before they are
  multiplied, and the power of ten has to be a double itself (`fits`). The product can therefore
  overflow where the decimal would not, and the other way round.
-/

namespace SandboxFetch.Json.Binary64

def precision : Nat := 53

/-- The largest exponent of a power of ten that is finite. -/
def maxExponent : Nat := 308

/-- The least magnitude that is infinite. -/
def overflow : Nat := (1 <<< 54 - 1) <<< 970

/-- The nearest number with at most 53 significant bits. -/
def round (n : Nat) : Nat :=
  let unit := 1 <<< (n.log2 + 1 - precision)
  let q := n / unit
  let r := n % unit
  if unit < 2 * r ∨ unit = 2 * r ∧ q % 2 = 1 then (q + 1) * unit else q * unit

theorem round_of_lt {n : Nat} (h : n < 1 <<< precision) : round n = n := by
  have small : n.log2 + 1 - precision = 0 := by
    by_cases hn : n = 0
    · subst hn; rfl
    · have := (Nat.log2_lt hn).2 (Nat.one_shiftLeft precision ▸ h)
      omega
  simp [round, small, Nat.mod_one]

def fits (significand : Nat) (exponent : Int) : Bool :=
  significand = 0 || exponent < 0 ||
    (exponent ≤ maxExponent && round significand * round (Nat.pow 10 exponent.toNat) < overflow)

end SandboxFetch.Json.Binary64
