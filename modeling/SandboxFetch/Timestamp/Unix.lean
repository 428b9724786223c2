/-
  SandboxFetch.Timestamp.Unix — moments counted in nanoseconds since 1970.

  Days are counted in eras of 400 years that begin on the first of March, so that a leap day is the
  last day of its year.
-/

import SandboxFetch.Timestamp.Basic

namespace SandboxFetch

/-- The date that is a number of days after the first of January 1970. -/
def Date.ofDays? (days : Int) : Option Date :=
  let fromMarch := days + 719468
  let era := fromMarch / 146097
  let dayOfEra := (fromMarch % 146097).toNat
  let yearOfEra := (dayOfEra - dayOfEra / 1460 + dayOfEra / 36524 - dayOfEra / 146096) / 365
  let dayOfYear := dayOfEra - (365 * yearOfEra + yearOfEra / 4 - yearOfEra / 100)
  let monthFromMarch := (5 * dayOfYear + 2) / 153
  let day := dayOfYear - (153 * monthFromMarch + 2) / 5 + 1
  let month := if monthFromMarch < 10 then monthFromMarch + 3 else monthFromMarch - 9
  Date.ofParts? (era * 400 + yearOfEra + (if month ≤ 2 then 1 else 0)) month day

def Timestamp.ofNanoseconds? (nanoseconds : Int) : Option Timestamp := do
  let seconds := nanoseconds / 1000000000
  let date ← Date.ofDays? (seconds / 86400)
  let ofDay := (seconds % 86400).toNat
  ofLocal? date (ofDay / 3600) (ofDay / 60 % 60) (ofDay % 60) (nanoseconds % 1000000000).toNat 0

end SandboxFetch
