/-
  SandboxFetch.Timestamp.Basic — moments in UTC, as date and time of day.

  Dates are those of the proleptic Gregorian calendar, and a date that does not exist cannot be
  formed (`Date.valid`). Years run from -262143 to 262142. The second 60 is a leap second; it may
  stand in any minute and is a moment of its own.

  A local time is brought to UTC by taking its offset off the minutes of the day (`ofLocal?`). An
  offset is shorter than a day, so the date moves by at most one day (`Date.next`,
  `Date.previous`).
-/

namespace SandboxFetch

def isLeapYear (year : Int) : Bool := year % 4 == 0 && (year % 100 != 0 || year % 400 == 0)

def daysInMonth (year : Int) (month : Nat) : Nat :=
  match month with
  | 2 => if isLeapYear year then 29 else 28
  | 4 | 6 | 9 | 11 => 30
  | _ => 31

theorem daysInMonth_pos (year : Int) (month : Nat) : 1 ≤ daysInMonth year month := by
  unfold daysInMonth
  split
  · split <;> decide
  all_goals decide

structure Date where
  year : Int
  month : Nat
  day : Nat
  valid : 1 ≤ month ∧ month ≤ 12 ∧ 1 ≤ day ∧ day ≤ daysInMonth year month
  deriving DecidableEq

namespace Date

def ofParts? (year : Int) (month day : Nat) : Option Date :=
  if h : 1 ≤ month ∧ month ≤ 12 ∧ 1 ≤ day ∧ day ≤ daysInMonth year month then some ⟨year, month, day, h⟩ else none

def next (d : Date) : Date :=
  if h : d.day < daysInMonth d.year d.month then
    ⟨d.year, d.month, d.day + 1, d.valid.1, d.valid.2.1, by omega, h⟩
  else if h : d.month < 12 then ⟨d.year, d.month + 1, 1, by omega, by omega, by omega, daysInMonth_pos ..⟩
  else ⟨d.year + 1, 1, 1, by omega, by omega, by omega, daysInMonth_pos ..⟩

def previous (d : Date) : Date :=
  if h : 1 < d.day then ⟨d.year, d.month, d.day - 1, d.valid.1, d.valid.2.1, by omega, by have := d.valid; omega⟩
  else if h : 1 < d.month then
    ⟨d.year, d.month - 1, daysInMonth d.year (d.month - 1), by omega, by have := d.valid; omega,
      daysInMonth_pos .., Nat.le_refl _⟩
  else ⟨d.year - 1, 12, 31, by omega, by omega, by omega, by simp [daysInMonth]⟩

theorem ofParts?_self (d : Date) : ofParts? d.year d.month d.day = some d := by
  simp [ofParts?, d.valid]

end Date

/-- A moment in UTC. -/
structure Timestamp where
  date : Date
  hour : Fin 24
  minute : Fin 60
  /-- 60 is a leap second. -/
  second : Fin 61
  nanosecond : Fin 1000000000
  deriving DecidableEq

namespace Timestamp

def hasYear (year : Int) : Bool := -262143 ≤ year && year ≤ 262142

/-- The moment of a local date and time whose offset from UTC is `offset` minutes. -/
def ofLocal? (date : Date) (hour minute second nanosecond : Nat) (offset : Int) : Option Timestamp :=
  if h : hour < 24 ∧ minute < 60 ∧ second < 61 ∧ nanosecond < 1000000000 ∧ -1440 < offset ∧ offset < 1440 then
    let minutes : Int := hour * 60 + minute - offset
    let date' := if minutes < 0 then date.previous else if minutes < 1440 then date else date.next
    let ofDay := (minutes % 1440).toNat
    if hasYear date.year && hasYear date'.year then
      some {
        date := date'
        hour := ⟨ofDay / 60, by omega⟩
        minute := ⟨ofDay % 60, by omega⟩
        second := ⟨second, h.2.2.1⟩
        nanosecond := ⟨nanosecond, h.2.2.2.1⟩ }
    else none
  else none

end Timestamp

end SandboxFetch
