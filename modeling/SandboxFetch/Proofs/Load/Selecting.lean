/-
  SandboxFetch.Proofs.Load.Selecting — which paths a selection takes in.

  A path is made of names, and a selection takes in the paths that begin with its own names
  (`liesWithin_iff`). Cut at its separators, a text begins with the pieces of another one just when it
  is that text or goes on behind it with a separator (`splitOn_prefix_iff`), so nothing more has to be
  looked at than one character behind the selection, and in the bytes of the path one byte
  (`liesWithin_iff_bytes`). From this it follows that separators at the ends mean nothing, that what is
  beneath a selected folder is selected, and that more selections never select less
  (`selectsByNames`).
-/

import SandboxFetch.Load.Scope
import SandboxFetch.Proofs.Text.Ends
import SandboxFetch.Proofs.Text.Utf8

namespace SandboxFetch

variable {selection path : String} {selections : List String} {xs ys : List Char}

/-! ## Pieces -/

theorem intercalate_append {α : Type} (sep : List α) {front back : List (List α)} (first : front ≠ [])
    (last : back ≠ []) :
    sep.intercalate (front ++ back) = sep.intercalate front ++ (sep ++ sep.intercalate back) := by
  induction front with
  | nil => exact absurd rfl first
  | cons piece front ih =>
    cases front with
    | nil =>
      rw [List.singleton_append, List.intercalate_cons_of_ne_nil last, List.intercalate_singleton, List.append_assoc]
    | cons next front =>
      rw [List.cons_append, List.cons_append, List.intercalate_cons_cons, ← List.cons_append, ih (by simp),
        List.intercalate_cons_cons]
      simp only [List.append_assoc]

/-- A text begins with the pieces of another one when it is that one, or when a separator follows. -/
theorem splitOn_prefix_iff (sep : Char) : xs.splitOn sep <+: ys.splitOn sep ↔ ys = xs ∨ xs ++ [sep] <+: ys := by
  constructor
  · rintro ⟨more, split⟩
    have joined : [sep].intercalate (xs.splitOn sep ++ more) = ys := by rw [split, List.intercalate_splitOn]
    by_cases none : more = []
    · rw [none, List.append_nil, List.intercalate_splitOn] at joined
      exact .inl joined.symm
    · rw [intercalate_append _ (List.splitOn_ne_nil _ _) none, List.intercalate_splitOn, ← List.append_assoc] at joined
      exact .inr ⟨_, joined⟩
  · rintro (rfl | ⟨rest, rfl⟩)
    · exact List.prefix_rfl
    · rw [List.append_assoc, List.singleton_append, List.splitOn_append_cons_self]
      exact List.prefix_append _ _

/-! ## Names -/

def pathNames (path : String) : List String :=
  if bareChars path = [] then [] else ((bareChars path).splitOn '/').map String.ofList

theorem liesWithin_eq_true : liesWithin xs ys = true ↔ xs = [] ∨ ys = xs ∨ xs ++ ['/'] <+: ys := by
  simp [liesWithin, or_assoc]

/-- A selection takes in the paths that begin with its names. -/
theorem liesWithin_iff : liesWithin (bareChars selection) (bareChars path) = true ↔
    pathNames selection <+: pathNames path := by
  rw [liesWithin_eq_true]
  unfold pathNames
  by_cases whole : bareChars selection = []
  · simp [whole]
  · rw [if_neg whole, or_iff_right whole]
    by_cases none : bareChars path = []
    · simp [none, Ne.symm whole, List.splitOn_ne_nil]
    · rw [if_neg none, List.prefix_map_iff_of_injective fun _ _ same => String.ofList_injective same,
        splitOn_prefix_iff]

/-! ## Bytes -/

/-- Some bytes are those of a selection, or go on behind them with a separator. -/
def BytesWithin (selection path : List UInt8) : Prop :=
  selection = [] ∨ path = selection ∨ selection <+: path ∧ path[selection.length]? = some 0x2f

theorem concat_prefix_iff {α : Type} {front l : List α} {a : α} :
    front ++ [a] <+: l ↔ front <+: l ∧ l[front.length]? = some a := by
  constructor
  · rintro ⟨rest, rfl⟩
    rw [List.append_assoc, List.singleton_append]
    exact ⟨List.prefix_append _ _, by simp⟩
  · rintro ⟨⟨rest, rfl⟩, next⟩
    rw [List.getElem?_append_right (Nat.le_refl _), Nat.sub_self] at next
    obtain ⟨rest, rfl⟩ := List.head?_eq_some_iff.1 (List.head?_eq_getElem?.trans next)
    exact ⟨rest, by simp⟩

/-- One byte behind the selection tells what the character there does. -/
theorem liesWithin_iff_bytes : liesWithin (bareChars selection) (bareChars path) = true ↔
    BytesWithin (textBytes (barePath selection)) (textBytes (barePath path)) := by
  have none : textBytes (barePath selection) = [] ↔ bareChars selection = [] := by
    rw [← String.ofList_eq_empty_iff]
    exact textBytes_inj (t := "")
  have same : textBytes (barePath path) = textBytes (barePath selection) ↔ bareChars path = bareChars selection := by
    rw [textBytes_inj]
    exact String.ofList_inj
  have beneath : bareChars selection ++ ['/'] <+: bareChars path ↔
      textBytes (barePath selection) <+: textBytes (barePath path) ∧
        (textBytes (barePath path))[(textBytes (barePath selection)).length]? = some 0x2f := by
    have slash : textBytes (String.ofList (bareChars selection ++ ['/'])) = textBytes (barePath selection) ++ [0x2f] := by
      unfold textBytes barePath
      rw [String.toList_ofList, String.toList_ofList, List.flatMap_append]
      rfl
    rw [← concat_prefix_iff, ← slash, textBytes_prefix_iff, barePath, String.toList_ofList, String.toList_ofList]
  rw [liesWithin_eq_true, BytesWithin, none, same, beneath]

/-! ## Ends -/

/-- Behind a selection and a separator there is nothing that the selection does not take in. -/
theorem liesWithin_beneath (selection rest : String) :
    liesWithin (bareChars selection) (bareChars (selection ++ "/" ++ rest)) = true := by
  rw [liesWithin_eq_true]
  obtain ⟨us, vs, whole, before, after⟩ := Text.exists_stripped (· == '/') selection.toList
  change selection.toList = us ++ bareChars selection ++ vs at whole
  by_cases inner : bareChars selection = []
  · exact .inl inner
  have text : (selection ++ "/" ++ rest).toList = us ++ (bareChars selection ++ (vs ++ '/' :: rest.toList)) ++ [] := by
    simp [whole]
  have bare : bareChars (selection ++ "/" ++ rest) =
      bareChars selection ++ (vs ++ '/' :: rest.toList).rdropWhile (· == '/') := by
    rw [bareChars, text, Text.stripEnds_pad before (by simp)]
    exact Text.stripEnds_append inner Text.not_of_mem_ends.1 Text.not_of_mem_ends.2
  -- What is kept behind the selection begins as the text there does, with a separator.
  have kept := List.rdropWhile_prefix (· == '/') (vs ++ '/' :: rest.toList)
  refine .inr ?_
  rw [bare]
  cases tail : (vs ++ '/' :: rest.toList).rdropWhile (· == '/') with
  | nil => exact .inl (List.append_nil _)
  | cons c more =>
    rw [tail] at kept
    have separator : c = '/' := by
      cases vs with
      | nil => exact (List.cons_prefix_cons.1 kept).1
      | cons v vs =>
        rw [(List.cons_prefix_cons.1 kept).1]
        simpa using after v List.mem_cons_self
    refine .inr ((List.prefix_append_right_inj _).2 ?_)
    rw [separator]
    exact List.prefix_append ['/'] more

def slashed (before after : ℕ) (path : String) : String :=
  String.ofList (List.replicate before '/' ++ path.toList ++ List.replicate after '/')

theorem bareChars_slashed (before after : ℕ) (path : String) : bareChars (slashed before after path) = bareChars path := by
  unfold bareChars slashed
  rw [String.toList_ofList]
  exact Text.stripEnds_pad (by simp) (by simp)

/-! ## What a selection takes in -/

structure SelectsByNames (selections : List String) : Prop where
  names : ∀ path, (LoadScope.paths selections).includes path = true ↔
    ∃ selection ∈ selections, pathNames selection <+: pathNames path
  bytes : ∀ path, (LoadScope.paths selections).includes path = true ↔
    ∃ selection ∈ selections, BytesWithin (textBytes (barePath selection)) (textBytes (barePath path))
  pathEnds : ∀ before after path,
    (LoadScope.paths selections).includes (slashed before after path) = (LoadScope.paths selections).includes path
  selectionEnds : ∀ others, List.Forall₂ (fun other selection => ∃ before after, other = slashed before after selection)
    others selections → (LoadScope.paths others).includes = (LoadScope.paths selections).includes
  beneath : ∀ selection ∈ selections, ∀ rest, (LoadScope.paths selections).includes (selection ++ "/" ++ rest) = true
  more : ∀ others, selections ⊆ others → ∀ path, (LoadScope.paths selections).includes path = true →
    (LoadScope.paths others).includes path = true

theorem includes_paths_iff : (LoadScope.paths selections).includes path = true ↔
    ∃ selection ∈ selections, liesWithin (bareChars selection) (bareChars path) = true :=
  List.any_eq_true

theorem selectsByNames (selections : List String) : SelectsByNames selections where
  names path := by simp only [includes_paths_iff, liesWithin_iff]
  bytes path := by simp only [includes_paths_iff, liesWithin_iff_bytes]
  pathEnds before after path := by simp only [LoadScope.includes, bareChars_slashed]
  selectionEnds others padded := by
    funext path
    simp only [LoadScope.includes]
    induction padded with
    | nil => rfl
    | cons same _ ih =>
      obtain ⟨before, after, rfl⟩ := same
      rw [List.any_cons, List.any_cons, ih, bareChars_slashed]
  beneath selection member rest := includes_paths_iff.2 ⟨selection, member, liesWithin_beneath selection rest⟩
  more others subset path taken := by
    obtain ⟨selection, member, within⟩ := includes_paths_iff.1 taken
    exact includes_paths_iff.2 ⟨selection, subset member, within⟩

/-- A name is taken in as a whole: `srcx` is not beneath `src`. -/
example : (LoadScope.paths ["/src", "f/a.txt"]).includes "srcx/main.rs" = false := by decide

end SandboxFetch
