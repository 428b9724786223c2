/-
  SandboxFetch.Proofs.Host — the path rules of a host, position by position.

  A character may be reserved wherever it stands, or only where it stands: a colon is allowed behind
  the letter of a drive and nowhere else (`ReservedAt`). A text is free of reserved characters just when
  none stands where it may not (`firstReserved?_eq_none_iff`), and what is reported otherwise is one of
  them (`reservedAt_of_firstReserved?`). A path does not depend on a working directory when it begins with
  a separator or with a drive and one (`isAbsolute_iff`).
-/

import Mathlib.Data.List.Basic
import SandboxFetch.Host

namespace SandboxFetch.Host

variable {h : Host} {cs : List Char} {c : Char} {i : Nat}

/-! ## Reserved characters -/

def HasDrive (cs : List Char) : Prop := ∃ letter rest, letter.isAlpha = true ∧ cs = letter :: ':' :: rest

/-- A character that a host does not allow where it stands. -/
inductive ReservedAt (cs : List Char) (i : Nat) : Host → Char → Prop
  | nul : cs[i]? = some '\x00' → ReservedAt cs i .unix '\x00'
  | sign {c : Char} : cs[i]? = some c → c ∈ ['<', '>', '\x22', '|', '?', '*'] → ReservedAt cs i .windows c
  | control {c : Char} : cs[i]? = some c → c.toNat ≤ 0x1f → ReservedAt cs i .windows c
  /-- The colon of a drive is at index 1. -/
  | colon : cs[i]? = some ':' → ¬ (i = 1 ∧ HasDrive cs) → ReservedAt cs i .windows ':'

theorem ReservedAt.getElem? (at_ : ReservedAt cs i h c) : cs[i]? = some c := by
  cases at_ <;> assumption

/-- Of the characters that are reserved wherever they stand, each is where it stands. -/
theorem reservedAt_of_reserves (there : cs[i]? = some c) (reserved : h.reserves c = true) : ReservedAt cs i h c := by
  cases h with
  | unix =>
    obtain rfl : c = '\x00' := eq_of_beq reserved
    exact .nul there
  | windows =>
    simp only [reserves, Bool.or_eq_true, beq_iff_eq, decide_eq_true_eq, or_assoc] at reserved
    by_cases low : c.toNat < 0x20
    · exact .control there (by omega)
    · exact .sign there (by simpa [low] using reserved)

theorem afterDrive_of_hasDrive (drive : HasDrive cs) : afterDrive cs = cs.drop 2 := by
  obtain ⟨letter, rest, alpha, rfl⟩ := drive
  simp [afterDrive, alpha]

theorem afterDrive_of_not_hasDrive (none : ¬ HasDrive cs) : afterDrive cs = cs := by
  unfold afterDrive
  split
  · next letter rest =>
    rw [if_neg fun alpha => none ⟨letter, rest, alpha, rfl⟩]
  · rfl

/-- A colon behind the drive, if there is one, is not the colon of a drive. -/
theorem colon_mem_afterDrive : ':' ∈ afterDrive cs ↔ ∃ i, cs[i]? = some ':' ∧ ¬ (i = 1 ∧ HasDrive cs) := by
  by_cases drive : HasDrive cs
  · rw [afterDrive_of_hasDrive drive, List.mem_iff_getElem?]
    obtain ⟨letter, rest, alpha, rfl⟩ := drive
    constructor
    · rintro ⟨i, there⟩
      exact ⟨i + 2, by simpa using there, by omega⟩
    · rintro ⟨i, there, other⟩
      match i with
      | 0 =>
        obtain rfl : letter = ':' := by simpa using there
        exact absurd alpha (by decide)
      | 1 => exact absurd ⟨rfl, letter, rest, alpha, rfl⟩ other
      | i + 2 => exact ⟨i, by simpa using there⟩
  · rw [afterDrive_of_not_hasDrive drive, List.mem_iff_getElem?]
    exact exists_congr fun i => ⟨fun there => ⟨there, fun both => drive both.2⟩, fun both => both.1⟩

/-- What may not stand where it does is reserved everywhere, or it is a colon behind the drive. -/
theorem ReservedAt.cases_reserves (reserved : ReservedAt cs i h c) :
    h.reserves c = true ∨ h = .windows ∧ c = ':' ∧ ':' ∈ afterDrive cs := by
  cases reserved with
  | nul => exact .inl rfl
  | sign _ listed =>
    simp only [List.mem_cons, List.not_mem_nil, or_false] at listed
    exact .inl (by simp [reserves, listed, or_assoc])
  | control _ low => exact .inl (by simp [reserves]; omega)
  | colon there other => exact .inr ⟨rfl, rfl, colon_mem_afterDrive.2 ⟨i, there, other⟩⟩

theorem firstReserved?_windows (cs : List Char) : windows.firstReserved? cs =
    (cs.find? windows.reserves).or ((afterDrive cs).find? (· == ':')) := by
  unfold firstReserved?
  cases cs.find? windows.reserves <;> rfl

/-- The character that is reported is reserved where it stands. -/
theorem reservedAt_of_firstReserved? (found : h.firstReserved? cs = some c) : ∃ i, ReservedAt cs i h c := by
  have first (found : cs.find? h.reserves = some c) : ∃ i, ReservedAt cs i h c := by
    obtain ⟨i, there⟩ := List.mem_iff_getElem?.1 (List.mem_of_find?_eq_some found)
    exact ⟨i, reservedAt_of_reserves there (List.find?_some found)⟩
  cases h with
  | unix => exact first found
  | windows =>
    rw [firstReserved?_windows] at found
    rcases Option.or_eq_some_iff.1 found with plain | ⟨-, colon⟩
    · exact first plain
    · obtain rfl : c = ':' := eq_of_beq (List.find?_some (p := (· == ':')) colon)
      obtain ⟨i, there, other⟩ := colon_mem_afterDrive.1 (List.mem_of_find?_eq_some colon)
      exact ⟨i, .colon there other⟩

/-- A text can be used when nothing in it stands where it may not. -/
theorem firstReserved?_eq_none_iff : h.firstReserved? cs = none ↔ ∀ i c, ¬ ReservedAt cs i h c := by
  constructor
  · intro free i c reserved
    have member := List.mem_of_getElem? reserved.getElem?
    cases h with
    | unix =>
      rcases reserved.cases_reserves with plain | ⟨other, -⟩
      · exact List.find?_eq_none.1 free c member plain
      · cases other
    | windows =>
      rw [firstReserved?_windows, Option.or_eq_none_iff] at free
      rcases reserved.cases_reserves with plain | ⟨-, -, colon⟩
      · exact List.find?_eq_none.1 free.1 c member plain
      · exact List.find?_eq_none.1 free.2 _ colon rfl
  · intro free
    cases found : h.firstReserved? cs with
    | none => rfl
    | some c =>
      obtain ⟨i, reserved⟩ := reservedAt_of_firstReserved? found
      exact absurd reserved (free i c)

/-! ## Absolute paths -/

inductive Rooted : Host → List Char → Prop
  | separator {h : Host} {c : Char} {rest : List Char} : h.separates c = true → Rooted h (c :: rest)
  | drive {letter c : Char} {rest : List Char} : letter.isAlpha = true → windows.separates c = true →
      Rooted .windows (letter :: ':' :: c :: rest)

theorem isAbsolute_iff : h.isAbsolute cs = true ↔ Rooted h cs := by
  constructor
  · intro absolute
    unfold isAbsolute at absolute
    split at absolute
    · next cs =>
      obtain ⟨rest, rfl⟩ := List.head?_eq_some_iff.1 (eq_of_beq absolute)
      exact .separator rfl
    · next letter c rest =>
      rcases Bool.or_eq_true_iff.1 absolute with first | drive
      · exact .separator first
      · obtain ⟨alpha, last⟩ := Bool.and_eq_true_iff.1 drive
        exact .drive alpha last
    · next cs _ =>
      obtain ⟨c, first, separates⟩ := (Option.any_eq_true _ _).1 absolute
      obtain ⟨rest, rfl⟩ := List.head?_eq_some_iff.1 first
      exact .separator separates
  · intro rooted
    cases rooted with
    | separator separates =>
      cases h with
      | unix => exact separates
      | windows =>
        unfold isAbsolute
        split
        · next none => cases none
        · next letter d rest _ split =>
          cases split
          rw [separates, Bool.true_or]
        · exact separates
    | drive alpha separates => simp [isAbsolute, alpha, separates]

end SandboxFetch.Host
