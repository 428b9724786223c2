/-
  SandboxFetch.Proofs.Timestamp.Text — which moments survive being written and read.

  A moment is read back from its text exactly when its year has four digits (`ofText?_text`). The
  text of any other year begins with a sign, which the reader does not take. Each part of the text is
  a padded number of fixed width, and a reader of so many digits stops behind it
  (`readDigits?_padded`); a fraction of 3, 6 or 9 digits stands for the nanoseconds it was written
  for (`readFraction?_writeFraction`).

  The loose reader takes the sign as well, and so it reads back every moment whose year has dates
  (`ofLooseText?_text`).
-/

import SandboxFetch.Proofs.Text.Numeral
import SandboxFetch.Timestamp.Rfc3339

namespace SandboxFetch

theorem Date.day_le (d : Date) : d.day ≤ 31 := by
  have short : daysInMonth d.year d.month ≤ 31 := by
    unfold daysInMonth
    split
    · split <;> decide
    all_goals decide
  have valid := d.valid
  omega

namespace Timestamp

open Text (padded)

/-- Whether the text of a moment can be read: its year has four digits. -/
def InRange (t : Timestamp) : Prop := 0 ≤ t.date.year ∧ t.date.year ≤ 9999

instance (t : Timestamp) : Decidable t.InRange := inferInstanceAs (Decidable (_ ∧ _))

/-! ## Parts -/

/-- A reader of digits takes all of them when no further digit may follow. -/
theorem readDigits?_append {least most : Nat} {ds rest : List Char} (digits : ∀ c ∈ ds, c.isDigit = true)
    (enough : least ≤ ds.length) (fits : ds.length ≤ most)
    (stop : ds.length = most ∨ ∀ c ∈ rest.head?, c.isDigit = false) :
    readDigits? least most (ds ++ rest) = some (Nat.ofDigitChars 10 ds 0, rest) := by
  have taken : ((ds ++ rest).take most).takeWhile Char.isDigit = ds := by
    rw [List.take_append, List.take_of_length_le fits, List.takeWhile_append_of_pos digits]
    rcases stop with full | stop
    · rw [full, Nat.sub_self, List.take_zero, List.takeWhile_nil, List.append_nil]
    · cases rest with
      | nil => simp
      | cons c rest =>
        have other : c.isDigit = false := stop c rfl
        cases most - ds.length with
        | zero => simp
        | succ k => simp [other]
  unfold readDigits?
  rw [taken]
  simp [Nat.not_lt.2 enough]

/-- Where there is no digit, no number is read. -/
theorem readDigits?_of_not_digit {least most : Nat} {c : Char} (h : c.isDigit = false) (rest : List Char) :
    readDigits? (least + 1) most (c :: rest) = none := by
  unfold readDigits?
  have none : ((c :: rest).take most).takeWhile Char.isDigit = [] := by
    cases most with
    | zero => rfl
    | succ k => simp [h]
  rw [none]
  rfl

theorem readDigits?_padded {width n : Nat} (pos : 0 < width) (h : n < 10 ^ width) (rest : List Char) :
    readDigits? width width (padded width n ++ rest) = some (n, rest) := by
  have length := Text.length_padded pos h
  rw [readDigits?_append (fun _ => Text.isDigit_of_mem_padded) (by omega) (by omega) (.inl length),
    Text.ofDigitChars_padded]

/-- A fraction stands for the nanoseconds it was written for. -/
theorem readFraction?_digits {places n : Nat} (pos : 0 < places) (few : places ≤ 9) (h : n < 10 ^ places) :
    readFraction? ('.' :: padded places n ++ ['Z']) = some (n * 10 ^ (9 - places), ['Z']) := by
  have length := Text.length_padded pos h
  have digits : readDigits? 1 9 (padded places n ++ ['Z']) = some (Nat.ofDigitChars 10 (padded places n) 0, ['Z']) :=
    readDigits?_append (fun _ => Text.isDigit_of_mem_padded) (by omega) (by omega) (.inr (by simp))
  simp only [List.cons_append, readFraction?, digits, Text.ofDigitChars_padded]
  simp [length]

theorem readFraction?_writeFraction {n : Nat} (h : n < 1000000000) :
    readFraction? (writeFraction n ++ ['Z']) = some (n, ['Z']) := by
  unfold writeFraction
  split
  · next zero =>
    rw [zero]
    rfl
  · split
    · next exact =>
      rw [readFraction?_digits (by decide) (by decide) (by omega)]
      congr 2
      omega
    · split
      · next exact =>
        rw [readFraction?_digits (by decide) (by decide) (by omega)]
        congr 2
        omega
      · rw [readFraction?_digits (by decide) (by decide) (by omega)]
        congr 2
        omega

/-! ## Moments -/

/-- A moment in UTC is its own local time there. -/
theorem ofLocal?_self {t : Timestamp} (h : hasYear t.date.year = true) :
    ofLocal? t.date t.hour t.minute t.second t.nanosecond 0 = some t := by
  obtain ⟨date, hour, minute, second, nanosecond⟩ := t
  have within : hour.val < 24 ∧ minute.val < 60 ∧ second.val < 61 ∧ nanosecond.val < 1000000000 ∧
      (-1440 : Int) < 0 ∧ (0 : Int) < 1440 := by omega
  have early : ¬ ((hour.val : Int) * 60 + minute.val - 0 < 0) := by omega
  have late : (hour.val : Int) * 60 + minute.val - 0 < 1440 := by omega
  have minutes : (((hour.val : Int) * 60 + minute.val - 0) % 1440).toNat = hour.val * 60 + minute.val := by omega
  unfold ofLocal?
  rw [dif_pos within]
  simp only [if_neg early, if_pos late]
  simp only at h
  simp only [h, Bool.and_self, if_true, minutes, Option.some.injEq, mk.injEq, true_and]
  refine ⟨Fin.ext ?_, Fin.ext ?_, trivial⟩
  · show (hour.val * 60 + minute.val) / 60 = hour.val
    omega
  · show (hour.val * 60 + minute.val) % 60 = minute.val
    omega

theorem read?_write {t : Timestamp} (h : t.InRange) : read? t.write = some t := by
  obtain ⟨low, high⟩ := h
  have dates := t.date.valid
  have days := t.date.day_le
  have year : ((t.date.year.toNat : Nat) : Int) = t.date.year := Int.toNat_of_nonneg low
  have named : writeYear t.date.year = padded 4 t.date.year.toNat := by simp [writeYear, low, high]
  unfold read? write
  rw [named]
  simp only [List.append_assoc, List.cons_append]
  rw [readDigits?_padded (by decide) (by omega)]
  simp only [Option.bind_eq_bind, Option.bind_some, readChar?, if_true]
  rw [readDigits?_padded (by decide) (by omega)]
  simp only [Option.bind_some, if_true]
  rw [readDigits?_padded (by decide) (by omega)]
  simp only [Option.bind_some, readSeparator?, decide_true, Bool.true_or, if_true]
  rw [readDigits?_padded (by decide) (by omega)]
  simp only [Option.bind_some, if_true]
  rw [readDigits?_padded (by decide) (by omega)]
  simp only [Option.bind_some, if_true]
  rw [readDigits?_padded (by decide) (by omega)]
  simp only [Option.bind_some]
  rw [readFraction?_writeFraction t.nanosecond.isLt]
  simp only [Option.bind_some, readOffset?, decide_true, Bool.true_or, if_true, List.isEmpty_nil]
  rw [year, Date.ofParts?_self]
  exact ofLocal?_self (by simp [hasYear]; omega)

/-- A moment is read back from its text exactly when its year has four digits. -/
theorem ofText?_text (t : Timestamp) : ofText? t.text = if t.InRange then some t else none := by
  unfold ofText? text
  rw [String.toList_ofList]
  split
  · next h => exact read?_write h
  · next h =>
    have outside : (0 ≤ t.date.year && t.date.year ≤ 9999) = false := by
      simpa [InRange] using h
    have sign : (if t.date.year < 0 then '-' else '+').isDigit = false := by split <;> decide
    unfold read? write writeYear
    rw [outside]
    -- the year begins with its sign, which is no digit
    simp only [Bool.false_eq_true, if_false, List.append_assoc, List.cons_append]
    rw [readDigits?_of_not_digit sign]
    rfl

/-! ## The loose form -/

theorem skipBlanks_cons {c : Char} (h : Text.isBlank c = false) (rest : List Char) :
    skipBlanks (c :: rest) = c :: rest := by
  simp [skipBlanks, h]

theorem skipBlanks_padded (width n : Nat) (rest : List Char) :
    skipBlanks (padded width n ++ rest) = padded width n ++ rest := by
  obtain ⟨d, ds, cut, digit⟩ := Text.exists_padded width n
  rw [cut]
  exact skipBlanks_cons (Text.isBlank_of_isDigit digit) _

theorem readShort?_padded {n : Nat} (h : n < 100) (rest : List Char) :
    readShort? (padded 2 n ++ rest) = some (n, rest) := by
  have length : (padded 2 n).length = 2 := Text.length_padded (by decide) h
  unfold readShort?
  rw [skipBlanks_padded, readDigits?_append (fun _ => Text.isDigit_of_mem_padded) (by omega) (by omega) (.inl length),
    Text.ofDigitChars_padded]

/-- A year is read back: with four digits as it is, with any number of them behind its sign. -/
theorem readLooseYear?_writeYear (year : Int) (rest : List Char) :
    readLooseYear? (writeYear year ++ '-' :: rest) = some (year, '-' :: rest) := by
  have dash : ∀ c ∈ ('-' :: rest).head?, c.isDigit = false := by
    intro c member
    cases member
    rfl
  unfold writeYear
  split
  · next plain =>
    simp only [Bool.and_eq_true, decide_eq_true_eq] at plain
    have length : (padded 4 year.toNat).length = 4 := Text.length_padded (by decide) (by omega)
    have read : readDigits? 1 4 (padded 4 year.toNat ++ '-' :: rest) = some (year.toNat, '-' :: rest) := by
      rw [readDigits?_append (fun _ => Text.isDigit_of_mem_padded) (by omega) (by omega) (.inl length),
        Text.ofDigitChars_padded]
    have same : ((year.toNat : Nat) : Int) = year := by omega
    -- the first of the four digits is no sign
    obtain ⟨d, ds, cut, digit⟩ := Text.exists_padded 4 year.toNat
    unfold readLooseYear?
    rw [skipBlanks_padded]
    split
    · next first =>
      rw [cut] at first
      exact absurd (List.cons.inj first).1 (Text.ne_of_isDigit digit rfl)
    · next first =>
      rw [cut] at first
      exact absurd (List.cons.inj first).1 (Text.ne_of_isDigit digit rfl)
    · rw [read]
      simp only [Option.map_some, same]
  · next signed =>
    -- behind a sign there may be any number of digits, up to the dash
    obtain ⟨d, ds, cut, -⟩ := Text.exists_padded 4 year.natAbs
    have some : 1 ≤ (padded 4 year.natAbs).length := by simp [cut]
    have read : readDigits? 1 (padded 4 year.natAbs ++ '-' :: rest).length (padded 4 year.natAbs ++ '-' :: rest) =
        Option.some (year.natAbs, '-' :: rest) := by
      rw [readDigits?_append (fun _ => Text.isDigit_of_mem_padded) some (by simp) (.inr dash),
        Text.ofDigitChars_padded]
    by_cases negative : year < 0
    · have same : -((year.natAbs : Nat) : Int) = year := by omega
      simp only [negative, if_true, List.cons_append]
      unfold readLooseYear?
      rw [skipBlanks_cons (by decide)]
      simp only [read, Option.map_some, same]
    · have same : ((year.natAbs : Nat) : Int) = year := by omega
      simp only [negative, if_false, List.cons_append]
      unfold readLooseYear?
      rw [skipBlanks_cons (by decide)]
      simp only [read, Option.map_some, same]

/-- The loose reader takes every moment whose year has dates. -/
theorem ofLooseText?_text {t : Timestamp} (h : hasYear t.date.year = true) : ofLooseText? t.text = some t := by
  have dates := t.date.valid
  have days := t.date.day_le
  have dash (rest : List Char) : readChar? '-' (skipBlanks ('-' :: rest)) = some rest := rfl
  have colon (rest : List Char) : readChar? ':' (skipBlanks (':' :: rest)) = some rest := rfl
  unfold ofLooseText? text
  rw [String.toList_ofList]
  unfold readLoose? write
  simp only [List.append_assoc, List.cons_append]
  refine Option.bind_eq_some_iff.2 ⟨_, readLooseYear?_writeYear _ _, ?_⟩
  refine Option.bind_eq_some_iff.2 ⟨_, dash _, ?_⟩
  refine Option.bind_eq_some_iff.2 ⟨_, readShort?_padded (by omega) _, ?_⟩
  refine Option.bind_eq_some_iff.2 ⟨_, dash _, ?_⟩
  refine Option.bind_eq_some_iff.2 ⟨_, readShort?_padded (by omega) _, ?_⟩
  refine Option.bind_eq_some_iff.2 ⟨_, rfl, ?_⟩
  refine Option.bind_eq_some_iff.2 ⟨_, readShort?_padded (by omega) _, ?_⟩
  refine Option.bind_eq_some_iff.2 ⟨_, colon _, ?_⟩
  refine Option.bind_eq_some_iff.2 ⟨_, readShort?_padded (by omega) _, ?_⟩
  refine Option.bind_eq_some_iff.2 ⟨_, colon _, ?_⟩
  refine Option.bind_eq_some_iff.2 ⟨_, readShort?_padded (by omega) _, ?_⟩
  refine Option.bind_eq_some_iff.2 ⟨_, readFraction?_writeFraction t.nanosecond.isLt, ?_⟩
  refine Option.bind_eq_some_iff.2 ⟨(0, []), rfl, ?_⟩
  refine Option.bind_eq_some_iff.2 ⟨_, t.date.ofParts?_self, ?_⟩
  exact ofLocal?_self h

end Timestamp

def noonOfMay : Timestamp where
  date := ⟨2024, 5, 17, by decide⟩
  hour := 12
  minute := 0
  second := 0
  nanosecond := 0

end SandboxFetch
