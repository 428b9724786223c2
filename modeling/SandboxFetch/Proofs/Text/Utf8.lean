/-
  SandboxFetch.Proofs.Text.Utf8 — texts and their bytes.

  The bytes of a text begin with those of another one just when the text does
  (`textBytes_prefix_iff`), so what is asked of the front of some bytes can be asked of the characters.
  Bytes are ordered as characters are: where two texts first differ, the larger character has the
  larger bytes (`textBytes_lt_iff`). Two bytes can stand between texts: the zero byte, if U+0000 is in
  none of them, and the byte 0xff, which is in no text (`zero_mem_textBytes`, `top_notMem_textBytes`).
-/

import Mathlib.Algebra.Group.Nat.Defs
import SandboxFetch.Load.Digest

namespace SandboxFetch

variable {s t : String} {c d : Char} {us vs : List UInt8}

/-- Characters end below 0x110000. -/
theorem val_toNat_lt (c : Char) : c.val.toNat < 0x110000 := by
  rcases c.valid with low | ⟨-, high⟩
  · exact Nat.lt_trans low (by decide)
  · exact high

/-! ## Fronts -/

theorem textBytes_prefix_iff : textBytes s <+: textBytes t ↔ s.toList <+: t.toList := by
  constructor
  · rintro ⟨rest, split⟩
    refine List.isPrefix_of_utf8Encode_append_eq_utf8Encode rest.toByteArray ?_
    rw [List.utf8Encode, List.utf8Encode, ← List.toByteArray_append]
    exact congrArg List.toByteArray split
  · rintro ⟨rest, split⟩
    refine ⟨rest.flatMap String.utf8EncodeChar, ?_⟩
    rw [textBytes, textBytes, ← split, List.flatMap_append]

theorem textBytes_inj : textBytes s = textBytes t ↔ s = t := by
  constructor
  · intro same
    have front : s.toList <+: t.toList := textBytes_prefix_iff.1 (same ▸ List.prefix_rfl)
    have back : t.toList <+: s.toList := textBytes_prefix_iff.1 (same ▸ List.prefix_rfl)
    exact String.toList_inj.1 (front.eq_of_length_le back.length_le)
  · intro same
    rw [same]

/-! ## Bytes between texts -/

/-- No byte of a character is above 0xf7, and none is zero but that of U+0000. -/
theorem of_mem_utf8EncodeChar {b : UInt8} (member : b ∈ String.utf8EncodeChar c) :
    b.toNat < 0xf8 ∧ (b = 0 → c = '\x00') := by
  have code : c = '\x00' ↔ c.val.toNat = 0 := by
    rw [← Char.val_inj, ← UInt32.toNat_inj]
    rfl
  have bound := val_toNat_lt c
  rw [code, ← UInt8.toNat_inj, UInt8.toNat_zero]
  unfold String.utf8EncodeChar at member
  generalize c.val.toNat = n at member bound
  dsimp only at member
  have small {k : Nat} (byte : k < 256) : (UInt8.ofNat k).toNat = k := by
    rw [UInt8.toNat_ofNat', Nat.mod_eq_of_lt byte]
  -- one case for each length, and in it one for each byte
  repeat' split at member
  all_goals
    simp only [List.mem_cons, List.not_mem_nil, or_false] at member
    rcases member with rfl | rfl | rfl | rfl
    all_goals
      rw [small (by omega)]
      omega

theorem zero_mem_textBytes (s : String) : 0 ∈ textBytes s ↔ '\x00' ∈ s.toList := by
  unfold textBytes
  rw [List.mem_flatMap]
  constructor
  · rintro ⟨c, member, zero⟩
    exact (of_mem_utf8EncodeChar zero).2 rfl ▸ member
  · exact fun member => ⟨_, member, by decide⟩

theorem top_notMem_textBytes (s : String) : 0xff ∉ textBytes s := by
  unfold textBytes
  rw [List.mem_flatMap]
  rintro ⟨c, -, top⟩
  exact absurd (of_mem_utf8EncodeChar top).1 (by decide)

/-! ## Order -/

theorem ofNat_cons_lt {a b : Nat} (byte : b < 256) (less : a < b ∨ a = b ∧ us < vs) :
    UInt8.ofNat a :: us < UInt8.ofNat b :: vs := by
  rw [List.cons_lt_cons_iff, UInt8.lt_iff_toNat_lt, UInt8.toNat_ofNat', UInt8.toNat_ofNat']
  rcases less with less | ⟨rfl, less⟩
  · left
    omega
  · exact .inr ⟨rfl, less⟩

theorem append_lt_append_left (front : List UInt8) : front ++ us < front ++ vs ↔ us < vs := by
  induction front with
  | nil => exact Iff.rfl
  | cons b front ih => rw [List.cons_append, List.cons_append, List.cons_lt_cons_self, ih]

/-- The last bytes of a character, six bits each. -/
def followers : Nat → Nat → List UInt8
  | 0, _ => []
  | k + 1, n => followers k (n / 64) ++ [UInt8.ofNat (n % 64 + 128)]

theorem followers_append_lt (k : Nat) {m n : Nat} (less : m < n) (same : m / 64 ^ k = n / 64 ^ k) (us vs : List UInt8) :
    followers k m ++ us < followers k n ++ vs := by
  induction k generalizing m n us vs with
  | zero => omega
  | succ k ih =>
    rw [followers, followers, List.append_assoc, List.append_assoc]
    rcases Nat.lt_or_ge (m / 64) (n / 64) with higher | higher
    · refine ih higher ?_ _ _
      rw [Nat.div_div_eq_div_mul, Nat.div_div_eq_div_mul, ← Nat.pow_succ', same]
    · have front : m / 64 = n / 64 := by omega
      rw [front, append_lt_append_left]
      exact ofNat_cons_lt (by omega) (.inl (by omega))

/-- As many bytes hold the same digits, so the first different one decides. -/
theorem cons_followers_lt (k : Nat) {m n a b : Nat} (less : m < n) (byte : b < 256)
    (first : m / 64 ^ k < n / 64 ^ k → a < b) (same : m / 64 ^ k = n / 64 ^ k → a = b) :
    UInt8.ofNat a :: (followers k m ++ us) < UInt8.ofNat b :: (followers k n ++ vs) := by
  rcases Nat.lt_or_eq_of_le (Nat.div_le_div_right (c := 64 ^ k) (Nat.le_of_lt less)) with higher | equal
  · exact ofNat_cons_lt byte (.inl (first higher))
  · exact ofNat_cons_lt byte (.inr ⟨same equal, followers_append_lt k less equal us vs⟩)

/-- The bytes of a smaller character are smaller, whatever follows. -/
theorem utf8EncodeChar_append_lt (less : c < d) (us vs : List UInt8) :
    String.utf8EncodeChar c ++ us < String.utf8EncodeChar d ++ vs := by
  have less : c.val.toNat < d.val.toNat := less
  have bound := val_toNat_lt d
  unfold String.utf8EncodeChar
  generalize c.val.toNat = m at less
  generalize d.val.toNat = n at less bound
  dsimp only
  -- the first byte is larger the more bytes follow it
  split
  · repeat' split
    all_goals exact ofNat_cons_lt (by omega) (.inl (by omega))
  · rw [if_neg (by omega : ¬ n ≤ 127)]
    split
    · split
      · exact cons_followers_lt 1 less (by omega) (by omega) (by omega)
      · split
        all_goals exact ofNat_cons_lt (by omega) (.inl (by omega))
    · rw [if_neg (by omega : ¬ n ≤ 2047)]
      split
      · split
        · exact cons_followers_lt 2 less (by omega) (by omega) (by omega)
        · exact ofNat_cons_lt (by omega) (.inl (by omega))
      · have twice (x : Nat) : x / 4096 = x / 64 / 64 := by omega
        rw [if_neg (by omega : ¬ n ≤ 65535), twice m, twice n]
        exact cons_followers_lt 3 less (by omega) (by omega) (by omega)

/-- The bytes of a smaller text are smaller. -/
theorem textBytes_lt (less : s < t) : textBytes s < textBytes t := by
  have less : s.toList < t.toList := less
  unfold textBytes
  generalize s.toList = xs at less
  generalize t.toList = ys at less
  induction less with
  | nil =>
    rw [List.flatMap_cons]
    cases bytes : String.utf8EncodeChar _ with
    | nil => exact absurd bytes String.utf8EncodeChar_ne_nil
    | cons b rest => exact .nil
  | rel less =>
    rw [List.flatMap_cons, List.flatMap_cons]
    exact utf8EncodeChar_append_lt less _ _
  | cons _ ih =>
    rw [List.flatMap_cons, List.flatMap_cons, append_lt_append_left]
    exact ih

/-- Texts are in the order of their bytes. -/
theorem textBytes_lt_iff : textBytes s < textBytes t ↔ s < t := by
  constructor
  · intro less
    rcases Std.lt_trichotomy s t with smaller | same | larger
    · exact smaller
    · rw [same] at less
      exact absurd less (List.lt_irrefl _)
    · exact absurd (textBytes_lt larger) (List.lt_asymm less)
  · exact textBytes_lt

end SandboxFetch
