/-
  SandboxFetch.Proofs.Load.Offending — which character of an unusable text is named.

  A text is not searched from front to back but for one kind of character after the other: for those that
  are reserved wherever they stand, then for colons where they may not stand, and in the name of a folder
  then for separators. The first character of the first kind that occurs is named (`Searched`). So it is
  the earliest one that has to be mended just when no character of a later kind stands before it
  (`namesReserved`), and a colon or a separator can hide behind what is named (`not_earliest_colon`).
-/

import Mathlib.Data.Nat.Find
import SandboxFetch.Proofs.Load.Destination

namespace SandboxFetch

namespace Host

variable {h : Host} {cs : List Char} {c : Char} {i : Nat} {kind : Nat → Char → Prop}
  {kinds : List (Nat → Char → Prop)} {answer answer' : Option Char}

/-! ## Searching -/

structure First (kind : Nat → Char → Prop) (i : Nat) (c : Char) : Prop where
  here : kind i c
  before : ∀ j < i, ∀ d, ¬ kind j d

inductive Searched : List (Nat → Char → Prop) → Nat → Char → Prop
  | found {kind : Nat → Char → Prop} {kinds : List (Nat → Char → Prop)} {i : Nat} {c : Char} :
      First kind i c → Searched (kind :: kinds) i c
  | absent {kind : Nat → Char → Prop} {kinds : List (Nat → Char → Prop)} {i : Nat} {c : Char} :
      (∀ j d, ¬ kind j d) → Searched kinds i c → Searched (kind :: kinds) i c

theorem exists_first (some : ∃ i c, kind i c) : ∃ i c, First kind i c := by
  classical
  obtain ⟨c, here⟩ := Nat.find_spec some
  exact ⟨Nat.find some, c, here, fun j hj d there => Nat.find_min some hj ⟨d, there⟩⟩

/-- Nothing of the kind that is searched for first stands before what is found. -/
theorem Searched.before_head (found : Searched (kind :: kinds) i c) : ∀ j < i, ∀ d, ¬ kind j d := by
  intro j hj d
  cases found with
  | found first => exact first.before j hj d
  | absent none _ => exact none j d

/-- What is found is of one of the kinds, and nothing of that kind stands before it. -/
theorem Searched.first (found : Searched kinds i c) : ∃ kind ∈ kinds, First kind i c := by
  induction found with
  | found first => exact ⟨_, List.mem_cons_self, first⟩
  | absent _ _ ih =>
    obtain ⟨kind, among, first⟩ := ih
    exact ⟨kind, List.mem_cons_of_mem _ among, first⟩

def Any (kinds : List (Nat → Char → Prop)) (i : Nat) (c : Char) : Prop := ∃ kind ∈ kinds, kind i c

/-- Where no character is of two kinds, what is found is the earliest of all when nothing is before it. -/
theorem Searched.earliest_iff (found : Searched kinds i c)
    (apart : ∀ kind ∈ kinds, ∀ kind' ∈ kinds, ∀ j j', kind j c → kind' j' c → kind = kind') :
    (∃ j, First (Any kinds) j c) ↔ ∀ j < i, ∀ d, ¬ Any kinds j d := by
  obtain ⟨kind, among, first⟩ := found.first
  constructor
  · intro ⟨j, ⟨⟨kind', among', there⟩, before⟩⟩
    obtain rfl := apart kind among kind' among' i j first.here there
    have : j ≤ i := by
      by_contra later
      exact before i (by omega) c ⟨kind, among, first.here⟩
    have : i ≤ j := by
      by_contra earlier
      exact first.before j (by omega) c there
    obtain rfl : i = j := by omega
    exact before
  · intro before
    exact ⟨i, ⟨kind, among, first.here⟩, before⟩

structure Finds (answer : Option Char) (kind : Nat → Char → Prop) : Prop where
  none_iff : answer = none ↔ ∀ i c, ¬ kind i c
  some_iff : ∀ c, answer = some c ↔ ∃ i, First kind i c

/-- One kind after the other is searched for by taking the first answer. -/
theorem Finds.searched_cons (finds : Finds answer kind)
    (others : ∀ c, answer' = some c ↔ ∃ i, Searched kinds i c) (c : Char) :
    answer.or answer' = some c ↔ ∃ i, Searched (kind :: kinds) i c := by
  rw [Option.or_eq_some_iff, finds.some_iff, finds.none_iff, others]
  constructor
  · intro found
    rcases found with ⟨i, first⟩ | ⟨none, i, later⟩
    · exact ⟨i, .found first⟩
    · exact ⟨i, .absent none later⟩
  · intro ⟨i, found⟩
    cases found with
    | found first => exact .inl ⟨i, first⟩
    | absent none later => exact .inr ⟨none, i, later⟩

theorem Finds.searched_single (finds : Finds answer kind) (c : Char) :
    answer = some c ↔ ∃ i, Searched [kind] i c := by
  have nothing : ∀ c, (none : Option Char) = some c ↔ ∃ i, Searched [] i c := by
    intro c
    exact iff_of_false nofun fun ⟨i, found⟩ => nomatch found
  rw [← finds.searched_cons nothing c, Option.or_none]

theorem finds_find? (p : Char → Bool) (cs : List Char) :
    Finds (cs.find? p) fun i c => cs[i]? = some c ∧ p c = true := by
  constructor
  · rw [List.find?_eq_none]
    constructor
    · intro free i c ⟨there, bad⟩
      exact free c (List.mem_of_getElem? there) bad
    · intro free c member bad
      obtain ⟨i, there⟩ := List.mem_iff_getElem?.1 member
      exact free i c ⟨there, bad⟩
  · intro c
    rw [List.find?_eq_some_iff_getElem]
    constructor
    · intro ⟨bad, i, inside, there, before⟩
      refine ⟨i, ⟨by rw [List.getElem?_eq_getElem inside, there], bad⟩, ?_⟩
      intro j hj d ⟨there', bad'⟩
      obtain ⟨inside', same⟩ := List.getElem?_eq_some_iff.1 there'
      have := before j hj
      rw [same, bad'] at this
      cases this
    · intro ⟨i, ⟨there, bad⟩, before⟩
      obtain ⟨inside, same⟩ := List.getElem?_eq_some_iff.1 there
      refine ⟨bad, i, inside, same, fun j hj => ?_⟩
      have inside' : j < cs.length := by omega
      have := before j hj cs[j]
      simpa [List.getElem?_eq_getElem inside'] using this

/-! ## Kinds -/

def Everywhere (h : Host) (cs : List Char) (i : Nat) (c : Char) : Prop := ReservedAt cs i h c ∧ c ≠ ':'

def Misplaced (h : Host) (cs : List Char) (i : Nat) (c : Char) : Prop := ReservedAt cs i h c ∧ c = ':'

def Separator (cs : List Char) (i : Nat) (c : Char) : Prop := cs[i]? = some c ∧ (c = '/' ∨ c = '\\')

theorem not_reserves_colon (h : Host) : h.reserves ':' = false := by cases h <;> decide

theorem everywhere_iff : Everywhere h cs i c ↔ cs[i]? = some c ∧ h.reserves c = true := by
  constructor
  · intro ⟨reserved, other⟩
    rcases reserved.cases_reserves with plain | ⟨-, colon, -⟩
    · exact ⟨reserved.getElem?, plain⟩
    · exact absurd colon other
  · intro ⟨there, plain⟩
    refine ⟨reservedAt_of_reserves there plain, ?_⟩
    intro colon
    rw [colon, not_reserves_colon] at plain
    cases plain

def misplacedColon? : Host → List Char → Option Char
  | .unix, _ => none
  | .windows, cs => (afterDrive cs).find? (· == ':')

theorem firstReserved?_eq (h : Host) (cs : List Char) :
    h.firstReserved? cs = (cs.find? h.reserves).or (h.misplacedColon? cs) := by
  cases h with
  | unix => exact Option.or_none.symm
  | windows => exact firstReserved?_windows cs

theorem finds_everywhere (h : Host) (cs : List Char) : Finds (cs.find? h.reserves) (Everywhere h cs) := by
  have kinds : Everywhere h cs = fun i c => cs[i]? = some c ∧ h.reserves c = true := by
    funext i c
    exact propext everywhere_iff
  rw [kinds]
  exact finds_find? h.reserves cs

/-- There is no drive on a host without them, and so no colon is out of place. -/
theorem exists_reservedAt_colon :
    (∃ i, ReservedAt cs i h ':') ↔ h = .windows ∧ ':' ∈ afterDrive cs := by
  constructor
  · intro ⟨i, reserved⟩
    rcases reserved.cases_reserves with plain | ⟨drives, -, member⟩
    · rw [not_reserves_colon] at plain
      cases plain
    · exact ⟨drives, member⟩
  · intro ⟨drives, member⟩
    subst drives
    obtain ⟨i, there, other⟩ := colon_mem_afterDrive.1 member
    exact ⟨i, .colon there other⟩

theorem misplacedColon?_eq_some : h.misplacedColon? cs = some c ↔ c = ':' ∧ ∃ i, ReservedAt cs i h ':' := by
  rw [exists_reservedAt_colon]
  cases h with
  | unix => simp [misplacedColon?]
  | windows =>
    unfold misplacedColon?
    constructor
    · intro found
      obtain rfl : c = ':' := eq_of_beq (List.find?_some (p := (· == ':')) found)
      exact ⟨rfl, rfl, List.mem_of_find?_eq_some found⟩
    · intro ⟨colon, _, member⟩
      subst colon
      cases found : (afterDrive cs).find? (· == ':') with
      | none => exact absurd rfl (List.find?_eq_none.1 found ':' member)
      | some d => exact found.trans (congrArg some (eq_of_beq (List.find?_some (p := (· == ':')) found)))

theorem finds_misplaced (h : Host) (cs : List Char) : Finds (h.misplacedColon? cs) (Misplaced h cs) := by
  constructor
  · rw [Option.eq_none_iff_forall_ne_some]
    constructor
    · intro none i c ⟨reserved, colon⟩
      exact none c (misplacedColon?_eq_some.2 ⟨colon, i, colon ▸ reserved⟩)
    · intro free c found
      obtain ⟨-, i, reserved⟩ := misplacedColon?_eq_some.1 found
      exact free i ':' ⟨reserved, rfl⟩
  · intro c
    rw [misplacedColon?_eq_some]
    constructor
    · intro ⟨colon, i, reserved⟩
      have there : ∃ i c, Misplaced h cs i c := ⟨i, ':', reserved, rfl⟩
      obtain ⟨j, d, first⟩ := exists_first there
      rw [colon, ← first.here.2]
      exact ⟨j, first⟩
    · intro ⟨i, first⟩
      exact ⟨first.here.2, i, first.here.2 ▸ first.here.1⟩

theorem finds_separator (cs : List Char) : Finds (cs.find? fun c => c == '/' || c == '\\') (Separator cs) := by
  have kinds : Separator cs = fun i c => cs[i]? = some c ∧ (c == '/' || c == '\\') = true := by
    funext i c
    simp [Separator]
  rw [kinds]
  exact finds_find? _ cs

/-- What makes a path unusable, in the order in which it is searched for. -/
def pathKinds (h : Host) (cs : List Char) : List (Nat → Char → Prop) := [Everywhere h cs, Misplaced h cs]

def folderKinds (h : Host) (cs : List Char) : List (Nat → Char → Prop) :=
  [Everywhere h cs, Misplaced h cs, Separator cs]

theorem firstReserved?_eq_some_iff : h.firstReserved? cs = some c ↔ ∃ i, Searched (pathKinds h cs) i c := by
  rw [firstReserved?_eq]
  exact (finds_everywhere h cs).searched_cons (finds_misplaced h cs).searched_single c

theorem folderFault?_eq_some_iff {name : String} :
    folderFault? h name = some c ↔ ∃ i, Searched (folderKinds h name.toList) i c := by
  have alternatives : folderFault? h name = (name.toList.find? h.reserves).or
      ((h.misplacedColon? name.toList).or (name.toList.find? fun c => c == '/' || c == '\\')) := by
    rw [← Option.or_assoc, ← firstReserved?_eq]
    unfold folderFault?
    cases h.firstReserved? name.toList <;> rfl
  rw [alternatives]
  exact (finds_everywhere h _).searched_cons
    ((finds_misplaced h _).searched_cons (finds_separator _).searched_single) c

/-! ## The earliest character -/

theorem any_pathKinds : Any (pathKinds h cs) = fun i c => ReservedAt cs i h c := by
  funext i c
  by_cases colon : c = ':' <;> simp [Any, pathKinds, Everywhere, Misplaced, colon]

theorem any_folderKinds :
    Any (folderKinds h cs) = fun i c => ReservedAt cs i h c ∨ cs[i]? = some c ∧ (c = '/' ∨ c = '\\') := by
  funext i c
  by_cases colon : c = ':' <;> simp [Any, folderKinds, Everywhere, Misplaced, Separator, colon]

/-- A separator is not reserved. -/
theorem not_reservedAt_separator (separator : c = '/' ∨ c = '\\') : ¬ ReservedAt cs i h c := by
  intro reserved
  rcases reserved.cases_reserves with plain | ⟨-, colon, -⟩
  · revert plain
    rcases separator with rfl | rfl <;> cases h <;> decide
  · rcases separator with rfl | rfl <;> cases colon

/-- No character is of two kinds. -/
theorem apart_folderKinds : ∀ kind ∈ folderKinds h cs, ∀ kind' ∈ folderKinds h cs, ∀ i j, kind i c → kind' j c →
    kind = kind' := by
  intro kind among kind' among' i j here there
  simp only [folderKinds, List.mem_cons, List.not_mem_nil, or_false] at among among'
  rcases among with rfl | rfl | rfl <;> rcases among' with rfl | rfl | rfl
  · rfl
  · exact absurd there.2 here.2
  · exact absurd here.1 (not_reservedAt_separator there.2)
  · exact absurd here.2 there.2
  · rfl
  · exact absurd here.1 (not_reservedAt_separator there.2)
  · exact absurd there.1 (not_reservedAt_separator here.2)
  · exact absurd there.1 (not_reservedAt_separator here.2)
  · rfl

theorem mem_folderKinds_of_mem (among : kind ∈ pathKinds h cs) : kind ∈ folderKinds h cs := by
  simp only [pathKinds, List.mem_cons, List.not_mem_nil, or_false] at among
  simp only [folderKinds, List.mem_cons, List.not_mem_nil, or_false]
  exact among.imp_right .inl

/-- What is reported of a path is the earliest when no colon is out of place before it. -/
theorem earliest_path_iff (found : Searched (pathKinds h cs) i c) :
    (∃ j, First (fun j d => ReservedAt cs j h d) j c) ↔ ∀ j < i, ¬ ReservedAt cs j h ':' := by
  rw [← any_pathKinds, found.earliest_iff fun kind among kind' among' => apart_folderKinds kind
    (mem_folderKinds_of_mem among) kind' (mem_folderKinds_of_mem among'), any_pathKinds]
  refine ⟨fun free j hj => free j hj ':', fun free j hj d reserved => ?_⟩
  by_cases colon : d = ':'
  · exact free j hj (colon ▸ reserved)
  · exact found.before_head j hj d ⟨reserved, colon⟩

/-- What is reported of a folder's name is the earliest when neither such a colon nor a separator is
    before it. -/
theorem earliest_folder_iff (found : Searched (folderKinds h cs) i c) :
    (∃ j, First (fun j d => ReservedAt cs j h d ∨ cs[j]? = some d ∧ (d = '/' ∨ d = '\\')) j c) ↔
      ∀ j < i, ¬ ReservedAt cs j h ':' ∧ cs[j]? ≠ some '/' ∧ cs[j]? ≠ some '\\' := by
  rw [← any_folderKinds, found.earliest_iff apart_folderKinds, any_folderKinds]
  constructor
  · intro free j hj
    exact ⟨fun colon => free j hj _ (.inl colon), fun slash => free j hj _ (.inr ⟨slash, .inl rfl⟩),
      fun slash => free j hj _ (.inr ⟨slash, .inr rfl⟩)⟩
  · intro free j hj d offends
    obtain ⟨noColon, noSlash, noBackslash⟩ := free j hj
    rcases offends with reserved | ⟨there, rfl | rfl⟩
    · by_cases colon : d = ':'
      · exact noColon (colon ▸ reserved)
      · exact found.before_head j hj d ⟨reserved, colon⟩
    · exact noSlash there
    · exact noBackslash there

end Host

/-! ## Errors -/

open Host

variable {host : Host}

/-- Which character of a text that cannot be used is named, and when it is the earliest one to mend. -/
structure NamesReserved (host : Host) (workingDir : Path) : Prop where
  /-- Nothing is reported just when no character stands where it may not. -/
  free : ∀ cs, host.firstReserved? cs = none ↔ ∀ i c, ¬ ReservedAt cs i host c
  reported : ∀ cs c, host.firstReserved? cs = some c ↔ ∃ i, Searched (pathKinds host cs) i c
  earliest : ∀ cs i c, Searched (pathKinds host cs) i c →
    ((∃ j, First (fun j d => ReservedAt cs j host d) j c) ↔ ∀ j < i, ¬ ReservedAt cs j host ':')
  /-- On Unix it always is. -/
  unix : host = .unix → ∀ cs c, host.firstReserved? cs = some c ↔
    ∃ i, First (fun j d => ReservedAt cs j host d) i c
  destination : ∀ destination text c,
    resolveDestination destination workingDir host = .error (.invalidDestination text c) ↔
      Text.trim destination ≠ "" ∧ text = Text.trim destination ∧
        ∃ i, Searched (pathKinds host text.toList) i c
  folder : ∀ name text c, componentFolder host true name = .error (.invalidFolder text c) ↔
    text = name ∧ ∃ i, Searched (folderKinds host name.toList) i c
  earliestInFolder : ∀ cs i c, Searched (folderKinds host cs) i c →
    ((∃ j, First (fun j d => ReservedAt cs j host d ∨ cs[j]? = some d ∧ (d = '/' ∨ d = '\\')) j c) ↔
      ∀ j < i, ¬ ReservedAt cs j host ':' ∧ cs[j]? ≠ some '/' ∧ cs[j]? ≠ some '\\')

theorem namesReserved (host : Host) (workingDir : Path) : NamesReserved host workingDir where
  free _ := firstReserved?_eq_none_iff
  reported _ _ := firstReserved?_eq_some_iff
  earliest _ _ _ := earliest_path_iff
  unix os cs c := by
    have nowhere : ∀ j, ¬ ReservedAt cs j host ':' := by
      intro j colon
      have drives := (exists_reservedAt_colon.1 ⟨j, colon⟩).1
      rw [os] at drives
      cases drives
    rw [firstReserved?_eq_some_iff]
    constructor
    · intro ⟨i, found⟩
      exact (earliest_path_iff found).2 fun j _ => nowhere j
    · intro ⟨i, first⟩
      refine ⟨i, .found ⟨⟨first.here, ?_⟩, fun j hj d earlier => first.before j hj d earlier.1⟩⟩
      intro colon
      exact nowhere i (colon ▸ first.here)
  destination destination text c := by
    rw [resolveDestination_eq]
    by_cases empty : Text.trim destination = ""
    · simp [empty]
    · rw [if_neg empty]
      constructor
      · intro failed
        cases found : host.firstReserved? (Text.trim destination).toList with
        | none =>
          rw [found] at failed
          cases failed
        | some d =>
          rw [found] at failed
          cases failed
          exact ⟨empty, rfl, firstReserved?_eq_some_iff.1 found⟩
      · intro ⟨_, same, found⟩
        subst same
        rw [firstReserved?_eq_some_iff.2 found]
  folder name text c := by
    rw [← folderFault?_eq_some_iff]
    unfold componentFolder
    rw [if_pos rfl]
    cases folderFault? host name with
    | none => simp
    | some d => simp [eq_comm]
  earliestInFolder _ _ _ := earliest_folder_iff

/-- There is only one first position. -/
theorem Host.First.position_eq {kind : Nat → Char → Prop} {i j : Nat} {c d : Char} (first : First kind i c)
    (other : First kind j d) : i = j := by
  have : ¬ i < j := fun before => other.before i before c first.here
  have : ¬ j < i := fun before => first.before j before d other.here
  omega

/-- The colon has to go first, but a sign that stands behind it is named, and in the name of a folder it
    may be the other way round with a separator. -/
theorem not_earliest_colon :
    First (fun j d => ReservedAt "ab:c<d".toList j .windows d) 2 ':' ∧
    windows.firstReserved? "ab:c<d".toList = some '<' ∧
    ¬ (∃ j, First (fun j d => ReservedAt "ab:c<d".toList j .windows d) j '<') ∧
    resolveDestination "ab:c<d" ⟨"/work"⟩ .windows = .error (.invalidDestination "ab:c<d" '<') ∧
    componentFolder .windows true "ab:c<d" = .error (.invalidFolder "ab:c<d" '<') ∧
    componentFolder .windows true "a/b:c" = .error (.invalidFolder "a/b:c" ':') := by
  have first : First (fun j d => ReservedAt "ab:c<d".toList j .windows d) 2 ':' := by
    refine ⟨.colon (by decide) (by simp), fun j hj d reserved => ?_⟩
    have letters : d = 'a' ∨ d = 'b' := by
      have there := reserved.getElem?
      match j, hj with
      | 0, _ => exact .inl (by simpa using there.symm)
      | 1, _ => exact .inr (by simpa using there.symm)
    rcases reserved.cases_reserves with plain | ⟨-, colon, -⟩
    · revert plain
      rcases letters with rfl | rfl <;> decide
    · rcases letters with rfl | rfl <;> cases colon
  refine ⟨first, by decide, ?_, by decide +kernel, by decide +kernel, by decide +kernel⟩
  intro ⟨j, sign⟩
  have there := sign.here.getElem?
  rw [← first.position_eq sign] at there
  cases there

end SandboxFetch
