/-
  SandboxFetch.Text.Split — a text cut at separators and into lines.

  A line ends at a line feed; one carriage return before that line feed belongs to the line break.
  A line feed at the very end of the text opens no further line, and a carriage return that no
  line feed follows is an ordinary character (`lines`). Cutting at the first separator (`cutAt?`)
  loses the separator and nothing else (`cutAt?_eq_some`, `cutAt?_append`).
-/

namespace SandboxFetch.Text

/-- The text before and after the first occurrence of a character. -/
def cutAt? (sep : Char) : List Char → Option (List Char × List Char)
  | [] => none
  | c :: rest =>
    if c = sep then some ([], rest)
    else (cutAt? sep rest).map fun (before, after) => (c :: before, after)

theorem cutAt?_eq_some {sep : Char} {cs before after : List Char} (h : cutAt? sep cs = some (before, after)) :
    cs = before ++ sep :: after ∧ sep ∉ before := by
  induction cs generalizing before with
  | nil => simp [cutAt?] at h
  | cons c rest ih =>
    unfold cutAt? at h
    split at h
    · next hc => simp_all
    · next hc =>
      obtain ⟨⟨b, a⟩, hb, he⟩ := Option.map_eq_some_iff.1 h
      obtain ⟨rfl, rfl⟩ := Prod.mk.inj he
      obtain ⟨rfl, hn⟩ := ih hb
      exact ⟨rfl, by simp [hn, Ne.symm hc]⟩

theorem cutAt?_eq_none {sep : Char} {cs : List Char} (h : sep ∉ cs) : cutAt? sep cs = none := by
  induction cs with
  | nil => rfl
  | cons c rest ih =>
    obtain ⟨first, others⟩ := List.ne_and_not_mem_of_not_mem_cons h
    rw [cutAt?, if_neg (Ne.symm first), ih others]
    rfl

theorem cutAt?_append {sep : Char} {cs rest : List Char} (h : sep ∉ cs) :
    cutAt? sep (cs ++ sep :: rest) = some (cs, rest) := by
  induction cs with
  | nil => simp [cutAt?]
  | cons c cs ih =>
    obtain ⟨first, others⟩ := List.ne_and_not_mem_of_not_mem_cons h
    rw [List.cons_append, cutAt?, if_neg (Ne.symm first), ih others]
    rfl

/-- Takes one carriage return off the end. -/
def dropReturn (line : List Char) : List Char :=
  if line.getLast? = some '\r' then line.dropLast else line

def linesOfPieces : List (List Char) → List (List Char)
  | [] => []
  | [final] => if final.isEmpty then [] else [final]
  | piece :: rest => dropReturn piece :: linesOfPieces rest

def lines (cs : List Char) : List (List Char) := linesOfPieces (cs.splitOn '\n')

end SandboxFetch.Text
