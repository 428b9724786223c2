/-
  SandboxFetch.Text.Blank — white space, and text without it at its edges.

  Names, destinations and server versions are compared and read after the white space at their
  edges is taken off (`trim`). White space is the Unicode property White_Space: U+0085, U+00A0 and
  U+3000 have it, the zero-width space U+200B and the byte-order mark U+FEFF do not. The white
  space of ASCII is part of it (`isBlank_of_isWhitespace`).

  `stripEnds` is the same cut for any class of characters. It takes off nothing inside the text
  (`stripEnds_eq_self`: a text that neither starts nor ends in the class is kept whole), and what it
  leaves neither starts nor ends in the class (`not_of_mem_ends`).
-/

namespace SandboxFetch.Text

/-- The characters with the Unicode property White_Space. -/
def isBlank (c : Char) : Bool :=
  let n := c.toNat
  (9 ≤ n && n ≤ 13) || n == 0x20 || n == 0x85 || n == 0xA0 || n == 0x1680 ||
    (0x2000 ≤ n && n ≤ 0x200A) || n == 0x2028 || n == 0x2029 || n == 0x202F || n == 0x205F ||
    n == 0x3000

theorem isBlank_of_isWhitespace {c : Char} (h : c.isWhitespace = true) : isBlank c = true := by
  simp only [Char.isWhitespace, Bool.or_eq_true, decide_eq_true_eq] at h
  rcases h with ((rfl | rfl) | rfl) | rfl <;> decide

def stripEnds (p : Char → Bool) (cs : List Char) : List Char :=
  ((cs.dropWhile p).reverse.dropWhile p).reverse

@[simp] theorem stripEnds_nil (p : Char → Bool) : stripEnds p [] = [] := rfl

theorem stripEnds_eq_self {p : Char → Bool} {cs : List Char} (first : ∀ c ∈ cs.head?, p c = false)
    (last : ∀ c ∈ cs.getLast?, p c = false) : stripEnds p cs = cs := by
  have keep : ∀ l : List Char, (∀ c ∈ l.head?, p c = false) → l.dropWhile p = l := by
    intro l h
    cases l with
    | nil => rfl
    | cons c r => simp [h c (by simp)]
  rw [stripEnds, keep cs first, keep cs.reverse (by simpa using last), List.reverse_reverse]

theorem not_of_mem_head?_dropWhile {p : Char → Bool} {cs : List Char} {c : Char} (first : c ∈ (cs.dropWhile p).head?) :
    p c = false := by
  have h := List.head?_dropWhile_not p cs
  rw [Option.mem_def.1 first] at h
  exact h

theorem not_of_mem_ends {p : Char → Bool} {cs : List Char} :
    (∀ c ∈ (stripEnds p cs).head?, p c = false) ∧ ∀ c ∈ (stripEnds p cs).getLast?, p c = false := by
  have front : stripEnds p cs <+: cs.dropWhile p := by
    rw [← List.reverse_suffix, stripEnds, List.reverse_reverse]
    exact List.dropWhile_suffix _
  constructor
  · intro c first
    obtain ⟨rest, cut⟩ := front
    have first' : c ∈ (cs.dropWhile p).head? := by
      rw [← cut, List.head?_append, Option.mem_def.1 first]
      rfl
    exact not_of_mem_head?_dropWhile first'
  · intro c last
    rw [stripEnds, List.getLast?_reverse] at last
    exact not_of_mem_head?_dropWhile last

theorem stripEnds_stripEnds (p : Char → Bool) (cs : List Char) : stripEnds p (stripEnds p cs) = stripEnds p cs :=
  stripEnds_eq_self not_of_mem_ends.1 not_of_mem_ends.2

def trim (s : String) : String := String.ofList (stripEnds isBlank s.toList)

/-- The byte-order mark, which is not white space. -/
def byteOrderMark : Char := '\ufeff'

/-- A text without leading byte-order marks. -/
def dropMarks (cs : List Char) : List Char := cs.dropWhile (· == byteOrderMark)

end SandboxFetch.Text
