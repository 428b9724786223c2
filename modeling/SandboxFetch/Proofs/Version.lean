/-
  SandboxFetch.Proofs.Version — the order of versions, and versions as text.

  A version goes on with zeros where its parts end. Two versions agree in every part or there is a first
  part that they differ in, and they compare as their parts do there (`compare_of_differ`). All laws of
  the order come of this (`le_iff`): it is total and transitive, and it calls two versions equal just when
  they are the same list of parts but for zeros at the end (`compare_eq_iff_significant`).

  The text of a version is read back as the parts it was written for (`ofString?_text`). Only a version
  without parts has none, and no text is read as such a version (`parts_ne_nil`).
-/

import Mathlib.Data.List.DropRight
import Mathlib.Data.Nat.Find
import SandboxFetch.Proofs.Text.Numeral
import SandboxFetch.Version

namespace SandboxFetch.ServerVersion

variable {u v w : ServerVersion} {as bs : List UInt32} {i : Nat}

/-! ## Comparing -/

/-- A part of a version; one that it lacks is zero. -/
def part (v : ServerVersion) (i : Nat) : UInt32 := v.parts.getD i 0

def DifferAt (u v : ServerVersion) (i : Nat) : Prop := u.part i ≠ v.part i ∧ ∀ j < i, u.part j = v.part j

/-- One step of the comparison, whichever of the lists has ended. -/
theorem compareParts_eq_then (as bs : List UInt32) :
    compareParts as bs = (compare (as.getD 0 0) (bs.getD 0 0)).then (compareParts as.tail bs.tail) := by
  cases as <;> cases bs <;> simp [compareParts]

theorem getD_tail (as : List UInt32) (i : Nat) : as.tail.getD i 0 = as.getD (i + 1) 0 := by
  cases as <;> simp

theorem compareParts_of_same (same : ∀ i, as.getD i 0 = bs.getD i 0) : compareParts as bs = .eq := by
  fun_induction compareParts as bs with
  | case1 => rfl
  | case2 b bs ih =>
    have first : 0 = b := by simpa using same 0
    rw [← first, ih fun i => by simpa using same (i + 1)]
    rfl
  | case3 a as ih =>
    have first : a = 0 := by simpa using same 0
    rw [first, ih fun i => by simpa using same (i + 1)]
    rfl
  | case4 a as b bs ih =>
    have first : a = b := by simpa using same 0
    rw [first, ih fun i => by simpa using same (i + 1)]
    simp

theorem compareParts_of_differ (differ : as.getD i 0 ≠ bs.getD i 0) (before : ∀ j < i, as.getD j 0 = bs.getD j 0) :
    compareParts as bs = compare (as.getD i 0) (bs.getD i 0) := by
  induction i generalizing as bs with
  | zero =>
    have apart : compare (as.getD 0 0) (bs.getD 0 0) ≠ .eq := by simpa using differ
    rw [compareParts_eq_then]
    cases first : compare (as.getD 0 0) (bs.getD 0 0) with
    | eq => exact absurd first apart
    | lt => rfl
    | gt => rfl
  | succ i ih =>
    have first : compare (as.getD 0 0) (bs.getD 0 0) = .eq := by simpa using before 0 (by omega)
    have tails : compareParts as.tail bs.tail = compare (as.tail.getD i 0) (bs.tail.getD i 0) := by
      apply ih
      · simpa [getD_tail] using differ
      · intro j hj
        simpa [getD_tail] using before (j + 1) (by omega)
    rw [compareParts_eq_then, first, tails, getD_tail, getD_tail]
    rfl

/-- Versions that differ compare as their parts do where they first differ. -/
theorem compare_of_differ (h : DifferAt u v i) : compare u v = compare (u.part i) (v.part i) :=
  compareParts_of_differ h.1 h.2

theorem same_or_differ (u v : ServerVersion) : (∀ i, u.part i = v.part i) ∨ ∃ i, DifferAt u v i := by
  by_cases same : ∀ i, u.part i = v.part i
  · exact .inl same
  · have some : ∃ i, u.part i ≠ v.part i := by simpa using same
    refine .inr ⟨Nat.find some, Nat.find_spec some, fun j hj => ?_⟩
    simpa using Nat.find_min some hj

/-! ## The order -/

theorem compare_eq_iff : compare u v = .eq ↔ ∀ i, u.part i = v.part i := by
  refine ⟨fun equal => ?_, compareParts_of_same⟩
  rcases same_or_differ u v with same | ⟨i, differ⟩
  · exact same
  · rw [compare_of_differ differ] at equal
    exact absurd (by simpa using equal) differ.1

/-- A version is at most another one when they agree, or when its part is below where they first differ. -/
theorem le_iff : u ≤ v ↔ (∀ i, u.part i = v.part i) ∨ ∃ i, DifferAt u v i ∧ u.part i < v.part i := by
  show (compare u v).isLE = true ↔ _
  rcases same_or_differ u v with same | ⟨i, differ⟩
  · rw [compare_eq_iff.2 same]
    exact iff_of_true rfl (.inl same)
  · rw [compare_of_differ differ, Std.isLE_compare]
    constructor
    · intro le
      exact .inr ⟨i, differ, UInt32.lt_of_le_of_ne le differ.1⟩
    · intro h
      rcases h with same | ⟨j, differ', below⟩
      · exact absurd (same i) differ.1
      · -- there is only one part that they first differ in
        have : i = j := by
          rcases Nat.lt_trichotomy i j with h | h | h
          · exact absurd (differ'.2 i h) differ.1
          · exact h
          · exact absurd (differ.2 j h) differ'.1
        subst this
        exact UInt32.le_of_lt below

theorem DifferAt.symm (h : DifferAt u v i) : DifferAt v u i := ⟨h.1.symm, fun j hj => (h.2 j hj).symm⟩

theorem compare_swap (u v : ServerVersion) : compare v u = (compare u v).swap := by
  rcases same_or_differ u v with same | ⟨i, differ⟩
  · rw [compare_eq_iff.2 same, compare_eq_iff.2 fun i => (same i).symm]
    rfl
  · rw [compare_of_differ differ, compare_of_differ differ.symm]
    exact Std.OrientedCmp.eq_swap

theorem le_trans (first : u ≤ v) (second : v ≤ w) : u ≤ w := by
  rw [le_iff] at first second ⊢
  rcases first with same | ⟨i, ⟨-, before⟩, below⟩ <;> rcases second with same' | ⟨j, ⟨-, before'⟩, below'⟩
  · exact .inl fun i => (same i).trans (same' i)
  · refine .inr ⟨j, ⟨?_, fun k hk => (same k).trans (before' k hk)⟩, ?_⟩
    · rw [same j]
      exact UInt32.ne_of_lt below'
    · rw [same j]
      exact below'
  · refine .inr ⟨i, ⟨?_, fun k hk => (before k hk).trans (same' k)⟩, ?_⟩
    · rw [← same' i]
      exact UInt32.ne_of_lt below
    · rw [← same' i]
      exact below
  · -- the outer two first differ where the first of the two differences is
    have least : u.part (min i j) < w.part (min i j) := by
      rcases Nat.lt_trichotomy i j with h | h | h
      · rw [Nat.min_eq_left (by omega), ← before' i h]
        exact below
      · subst h
        rw [Nat.min_self]
        exact UInt32.lt_trans below below'
      · rw [Nat.min_eq_right (by omega), before j h]
        exact below'
    refine .inr ⟨min i j, ⟨UInt32.ne_of_lt least, fun k hk => ?_⟩, least⟩
    rw [before k (by omega), before' k (by omega)]

/-! ## Zeros at the end -/

def significant (v : ServerVersion) : List UInt32 := v.parts.rdropWhile (· == 0)

theorem rdropWhile_zero_cons (a : UInt32) (as : List UInt32) : (a :: as).rdropWhile (· == 0) =
    if a = 0 ∧ as.rdropWhile (· == 0) = [] then [] else a :: as.rdropWhile (· == 0) := by
  unfold List.rdropWhile
  rw [List.reverse_cons, List.dropWhile_append]
  by_cases zeros : as.reverse.dropWhile (· == 0) = []
  · by_cases zero : a = 0 <;> simp [zeros, zero]
  · simp [zeros]

theorem compareParts_eq_iff : compareParts as bs = .eq ↔ as.rdropWhile (· == 0) = bs.rdropWhile (· == 0) := by
  fun_induction compareParts as bs with
  | case1 => simp
  | case2 b bs ih =>
    rw [Ordering.then_eq_eq, ih, rdropWhile_zero_cons]
    by_cases zero : b = 0
    · subst zero
      by_cases zeros : bs.rdropWhile (· == 0) = []
      · simp [zeros]
      · simp [zeros, Ne.symm zeros]
    · simp [zero, Ne.symm zero]
  | case3 a as ih =>
    rw [Ordering.then_eq_eq, ih, rdropWhile_zero_cons]
    by_cases zero : a = 0
    · subst zero
      by_cases zeros : as.rdropWhile (· == 0) = [] <;> simp [zeros]
    · simp [zero]
  | case4 a as b bs ih =>
    rw [Ordering.then_eq_eq, ih, rdropWhile_zero_cons, rdropWhile_zero_cons, Std.compare_eq_iff_eq]
    grind

/-- Versions are equal that are the same but for zeros at the end. -/
theorem compare_eq_iff_significant : compare u v = .eq ↔ u.significant = v.significant := compareParts_eq_iff

theorem beq_iff : (u == v) = true ↔ compare u v = .eq := by
  show (compare u v == .eq) = true ↔ _
  simp

/-! ## Text -/

def numerals (v : ServerVersion) : List (List Char) := v.parts.map fun p => (Text.writeNat p.toNat).toList

theorem toList_text (v : ServerVersion) : v.text.toList = ['.'].intercalate v.numerals := by
  rw [text, String.toList_intercalate, List.map_map]
  rfl

theorem mapM_partOf? (parts : List UInt32) :
    (parts.map fun p => (Text.writeNat p.toNat).toList).mapM partOf? = some parts := by
  induction parts with
  | nil => rfl
  | cons p rest ih =>
    have below : p.toNat < Text.word32 := p.toNat_lt_size
    have first : partOf? (Text.writeNat p.toNat).toList = some p := by
      rw [partOf?, Text.readNat?_writeNat below]
      simp
    rw [List.map_cons, List.mapM_cons, first, ih]
    rfl

theorem splitOn_text (some : v.parts ≠ []) : v.text.toList.splitOn '.' = v.numerals := by
  rw [toList_text]
  apply List.splitOn_intercalate
  · intro numeral member point
    obtain ⟨p, -, rfl⟩ := List.mem_map.1 member
    exact absurd (Text.isDigit_of_mem_writeNat point) (by decide)
  · simpa [numerals] using some

/-- What stands in joined texts is a separator or stands in one of them. -/
theorem mem_intercalate {sep c : Char} {pieces : List (List Char)} (member : c ∈ [sep].intercalate pieces) :
    c = sep ∨ ∃ piece ∈ pieces, c ∈ piece := by
  induction pieces with
  | nil => cases member
  | cons piece rest ih =>
    cases rest with
    | nil =>
      rw [List.intercalate_singleton] at member
      exact .inr ⟨piece, List.mem_cons_self, member⟩
    | cons next rest =>
      rw [List.intercalate_cons_cons, List.append_assoc, List.mem_append, List.singleton_append, List.mem_cons] at member
      rcases member with first | sep | others
      · exact .inr ⟨piece, List.mem_cons_self, first⟩
      · exact .inl sep
      · exact (ih others).imp_right fun ⟨piece, among, inside⟩ => ⟨piece, List.mem_cons_of_mem _ among, inside⟩

theorem isBlank_of_mem_text {c : Char} (member : c ∈ v.text.toList) : Text.isBlank c = false := by
  rw [toList_text] at member
  rcases mem_intercalate member with rfl | ⟨numeral, among, inside⟩
  · decide
  · obtain ⟨p, -, rfl⟩ := List.mem_map.1 among
    exact Text.isBlank_of_isDigit (Text.isDigit_of_mem_writeNat inside)

/-- A version that has parts is read back from its text. -/
theorem ofString?_text (some : v.parts ≠ []) : ofString? v.text = .ok v := by
  have bare : Text.trim v.text = v.text := by
    rw [Text.trim, Text.stripEnds_eq_self, String.ofList_toList]
    · intro c first
      exact isBlank_of_mem_text (List.mem_of_head? first)
    · intro c last
      exact isBlank_of_mem_text (List.mem_of_getLast? last)
  have pieces := splitOn_text some
  have inner : v.text.isEmpty = false := by
    rw [String.isEmpty_eq_false_iff]
    intro none
    -- the only piece of an empty text would be a numeral without digits
    rw [none, numerals] at pieces
    obtain ⟨p, rest, parts⟩ := List.exists_cons_of_ne_nil some
    rw [parts, List.map_cons] at pieces
    exact Text.toList_writeNat_ne_nil p.toNat (List.cons.inj pieces).1.symm
  unfold ofString?
  simp only [bare, inner, pieces, numerals, mapM_partOf?]
  rfl

/-- What is read as a version has a part. -/
theorem parts_ne_nil {s : String} (read : ofString? s = .ok v) : v.parts ≠ [] := by
  unfold ofString? at read
  dsimp only at read
  split at read
  · cases read
  · split at read
    · next parts made =>
      cases read
      intro none
      cases pieces : (Text.trim s).toList.splitOn '.' with
      | nil => exact List.splitOn_ne_nil _ _ pieces
      | cons piece rest =>
        simp only [pieces, List.mapM_cons, Option.bind_eq_bind, Option.bind_eq_some_iff] at made
        obtain ⟨p, -, ps, -, made⟩ := made
        cases none.symm.trans (Option.some.inj made).symm
    · cases read

/-! ## Laws -/

theorem supportsRuleOnlyLoads_eq_true : v.supportsRuleOnlyLoads = true ↔ ruleOnlyMinimum ≤ v := by
  show (compare v ruleOnlyMinimum).isGE = true ↔ (compare ruleOnlyMinimum v).isLE = true
  rw [compare_swap v ruleOnlyMinimum]
  cases compare v ruleOnlyMinimum <;> decide

theorem supportsRuleOnlyLoads_mono (le : u ≤ v) (supports : u.supportsRuleOnlyLoads = true) :
    v.supportsRuleOnlyLoads = true :=
  supportsRuleOnlyLoads_eq_true.2 (le_trans (supportsRuleOnlyLoads_eq_true.1 supports) le)

theorem le_of_compare_eq (equal : compare u v = .eq) : u ≤ v := le_iff.2 (.inl (compare_eq_iff.1 equal))

structure Lawful (u v w : ServerVersion) : Prop where
  self : compare u u = .eq
  swap : compare v u = (compare u v).swap
  total : u ≤ v ∨ v ≤ u
  antisymm : u ≤ v → v ≤ u → (u == v) = true
  trans : u ≤ v → v ≤ w → u ≤ w
  /-- Equality is that of the order, and it passes over zeros at the end. -/
  beq : (u == v) = true ↔ compare u v = .eq
  equal : (u == v) = true ↔ u.parts.rdropWhile (· == 0) = v.parts.rdropWhile (· == 0)
  differ : ∀ i, DifferAt u v i → compare u v = compare (u.part i) (v.part i)
  monotone : u ≤ v → u.supportsRuleOnlyLoads = true → v.supportsRuleOnlyLoads = true
  respects : (u == v) = true → u.supportsRuleOnlyLoads = v.supportsRuleOnlyLoads
  /-- The parts are read back as they were, not only up to equality. -/
  written : u.parts ≠ [] → ofString? u.text = .ok u
  again : ∀ s, ofString? s = .ok u → ofString? u.text = .ok u

theorem lawful (u v w : ServerVersion) : Lawful u v w where
  self := compare_eq_iff.2 fun _ => rfl
  swap := compare_swap u v
  total := by
    show (compare u v).isLE = true ∨ (compare v u).isLE = true
    rw [compare_swap u v]
    cases compare u v <;> decide
  antisymm := by
    show (compare u v).isLE = true → (compare v u).isLE = true → _
    rw [beq_iff, compare_swap u v]
    cases compare u v <;> decide
  trans := le_trans
  beq := beq_iff
  equal := beq_iff.trans compare_eq_iff_significant
  differ _ := compare_of_differ
  monotone := supportsRuleOnlyLoads_mono
  respects equal := by
    have equal := beq_iff.1 equal
    have back : compare v u = .eq := by rw [compare_swap u v, equal]; rfl
    exact Bool.eq_iff_iff.2 ⟨supportsRuleOnlyLoads_mono (le_of_compare_eq equal),
      supportsRuleOnlyLoads_mono (le_of_compare_eq back)⟩
  written := ofString?_text
  again _ read := ofString?_text (parts_ne_nil read)

end SandboxFetch.ServerVersion
