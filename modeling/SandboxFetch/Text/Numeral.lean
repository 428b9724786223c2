/-
  SandboxFetch.Text.Numeral — whole numbers as text.

  A numeral is one or more ASCII digits, with at most one plus sign before them; leading zeros are
  allowed and the value stays below the limit of the number's width (`readNat?`). Numbers are
  written with as few digits as they have (`writeNat`), and what is written is read back
  (`readNat?_writeNat`). A padded number has zeros before it up to some width (`padded`), which do
  not change what it stands for (`ofDigitChars_padded`).

  Single digits of any radix up to 16 are read in either case (`digitValue?`) and written in lower
  case (`hexDigit`).
-/

namespace SandboxFetch.Text

/-- The number written in a text, when the text is a numeral for a number below `limit`. -/
def readNat? (limit : Nat) (cs : List Char) : Option Nat :=
  let digits := match cs with
    | '+' :: rest => rest
    | _ => cs
  if digits.isEmpty || !digits.all Char.isDigit then none
  else
    let n := Nat.ofDigitChars 10 digits 0
    if n < limit then some n else none

def writeNat (n : Nat) : String := String.ofList (Nat.toDigits 10 n)

theorem readNat?_writeNat {limit n : Nat} (h : n < limit) : readNat? limit (writeNat n).toList = some n := by
  have digit : ∀ c ∈ Nat.toDigits 10 n, c.isDigit = true :=
    fun c hc => Nat.isDigit_of_mem_toDigits (by decide) (by decide) hc
  have value := Nat.ofDigitChars_toDigits (b := 10) (n := n) (by decide) (by decide)
  have nonempty : Nat.toDigits 10 n ≠ [] := Nat.toDigits_ne_nil
  rw [writeNat, String.toList_ofList]
  generalize Nat.toDigits 10 n = ds at digit value nonempty
  match ds, nonempty with
  | d :: rest, _ =>
    have hd : d ≠ '+' := fun e => by
      have := digit d (by simp)
      rw [e] at this
      exact absurd this (by decide)
    have all : (d :: rest).all Char.isDigit = true := List.all_eq_true.2 digit
    unfold readNat?
    split
    · next heq => exact absurd (List.cons.inj heq).1 hd
    · simp only [List.isEmpty_cons, all, value, h, Bool.not_true, Bool.or_self, if_true]
      simp

/-- A number in decimal with at least `width` digits. -/
def padded (width n : Nat) : List Char :=
  let digits := Nat.toDigits 10 n
  List.replicate (width - digits.length) '0' ++ digits

theorem ofDigitChars_padded (width n : Nat) : Nat.ofDigitChars 10 (padded width n) 0 = n := by
  have zeros (k : Nat) (ds : List Char) :
      Nat.ofDigitChars 10 (List.replicate k '0' ++ ds) 0 = Nat.ofDigitChars 10 ds 0 := by
    induction k with
    | zero => rfl
    | succ k ih => simpa [List.replicate_succ, Nat.ofDigitChars_cons] using ih
  rw [padded, zeros]
  exact Nat.ofDigitChars_toDigits (by decide) (by decide)

theorem padded_inj {width m n : Nat} (h : padded width m = padded width n) : m = n := by
  rw [← ofDigitChars_padded width m, h, ofDigitChars_padded]

/-! ## Single digits -/

def digitValue? (radix : Nat) (c : Char) : Option Nat :=
  let n := c.toNat
  let value :=
    if 48 ≤ n && n ≤ 57 then some (n - 48)
    else if 65 ≤ n && n ≤ 70 then some (n - 55)
    else if 97 ≤ n && n ≤ 102 then some (n - 87)
    else none
  value.filter (· < radix)

def hexDigit (n : Nat) : Char := if n < 10 then Char.ofNat (48 + n) else Char.ofNat (87 + n)

/-! ## Widths -/

def word32 : Nat := UInt32.size

def word64 : Nat := UInt64.size

end SandboxFetch.Text
