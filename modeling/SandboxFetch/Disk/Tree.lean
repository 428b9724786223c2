/-
  SandboxFetch.Disk.Tree — directories, files and symbolic links.

  A tree tells what is at each place, a place being the names from the root down to it. The root is
  a directory, and whatever else there is stands in a directory (`Tree.grounded`), at most one thing
  to a place (`Tree.distinct`). There are two ways to change a tree. `put` sets what is at a place
  whose parent is a directory and which is no directory itself, and changes nothing else
  (`at?_put`). `clear` takes away all that is below a place and keeps everything else (`at?_clear`).
-/

import SandboxFetch.Path

namespace SandboxFetch

/-- A place in a tree: the names from the root down to it. -/
abbrev Location := List String

inductive Node where
  | directory
  | file (content : String)
  /-- The target is read from the directory that the link stands in. -/
  | link (target : Path)
  deriving DecidableEq, Repr

def Location.isBelow (l top : Location) : Bool := top.isPrefixOf l && l != top

def nodeAt? (entries : List (Location × Node)) (l : Location) : Option Node :=
  if l = [] then some .directory else entries.lookup l

theorem lookup_filter_key {entries : List (Location × Node)} (p : Location → Bool) (l : Location) :
    (entries.filter fun e => p e.1).lookup l = if p l then entries.lookup l else none := by
  induction entries with
  | nil => simp
  | cons e rest ih =>
    obtain ⟨m, n⟩ := e
    by_cases hm : l = m
    · subst hm
      by_cases hp : p l
      · simp [hp]
      · rw [List.filter_cons_of_neg (by simpa using hp), ih]; simp [hp]
    · have miss : (l == m) = false := by simpa using hm
      by_cases hp : p m
      · rw [List.filter_cons_of_pos (by simpa using hp), List.lookup_cons, List.lookup_cons, miss]; exact ih
      · rw [List.filter_cons_of_neg (by simpa using hp), List.lookup_cons, miss]; exact ih

theorem nodeAt?_cons_filter {entries : List (Location × Node)} {l : Location} (hl : l ≠ []) (n : Node) (m : Location) :
    nodeAt? ((l, n) :: entries.filter fun e => e.1 != l) m = if m = l then some n else nodeAt? entries m := by
  unfold nodeAt?
  by_cases hm : m = l
  · subst hm; simp [hl]
  · have miss : (m == l) = false := by simpa using hm
    rw [List.lookup_cons, miss, lookup_filter_key (fun k => k != l)]
    simp [hm]

theorem nodeAt?_filter_below {entries : List (Location × Node)} (top m : Location) :
    nodeAt? (entries.filter fun e => !e.1.isBelow top) m = if m.isBelow top then none else nodeAt? entries m := by
  unfold nodeAt?
  rw [lookup_filter_key (fun k => !Location.isBelow k top)]
  by_cases hm : m = []
  · subst hm
    have : Location.isBelow [] top = false := by cases top <;> simp [Location.isBelow]
    simp [this]
  · by_cases hb : m.isBelow top <;> simp [hm, hb]

theorem Location.isBelow_of_dropLast {l top : Location} (hl : l ≠ []) (h : Location.isBelow l.dropLast top = true) :
    l.isBelow top = true := by
  simp only [isBelow, Bool.and_eq_true, List.isPrefixOf_iff_prefix, bne_iff_ne] at h ⊢
  refine ⟨h.1.trans (List.dropLast_prefix l), fun e => ?_⟩
  have shorter := h.1.length_le
  have := List.length_pos_iff.2 hl
  rw [← e, List.length_dropLast] at shorter
  omega

structure Tree where
  entries : List (Location × Node) := []
  grounded : ∀ e ∈ entries, e.1 ≠ [] ∧ nodeAt? entries e.1.dropLast = some .directory := by simp
  distinct : entries.Pairwise fun a b => a.1 ≠ b.1 := by simp

namespace Tree

instance : Inhabited Tree := ⟨{}⟩

def at? (t : Tree) (l : Location) : Option Node := nodeAt? t.entries l

@[simp] theorem at?_root (t : Tree) : t.at? [] = some .directory := rfl

def CanHold (t : Tree) (l : Location) : Prop :=
  l ≠ [] ∧ t.at? l.dropLast = some .directory ∧ t.at? l ≠ some .directory

instance (t : Tree) (l : Location) : Decidable (t.CanHold l) :=
  inferInstanceAs (Decidable (_ ∧ _ ∧ _))

/-- The tree with a node at a place that can hold it; elsewhere the tree stays as it is. -/
def put (t : Tree) (l : Location) (n : Node) : Tree :=
  if h : t.CanHold l then
    { entries := (l, n) :: t.entries.filter fun e => e.1 != l
      grounded := by
        obtain ⟨hl, parent, notDirectory⟩ := h
        intro e he
        rcases List.mem_cons.1 he with rfl | he
        · refine ⟨hl, ?_⟩
          rw [nodeAt?_cons_filter hl, if_neg]
          · exact parent
          · intro e
            have shorter : l.dropLast.length = l.length := congrArg List.length e
            have := List.length_pos_iff.2 hl
            rw [List.length_dropLast] at shorter
            omega
        · obtain ⟨he, -⟩ := List.mem_filter.1 he
          obtain ⟨hne, hp⟩ := t.grounded e he
          refine ⟨hne, ?_⟩
          rw [nodeAt?_cons_filter hl, if_neg]
          · exact hp
          · intro e'
            exact notDirectory (by rw [at?, ← e']; exact hp)
      distinct := by
        refine List.pairwise_cons.2 ⟨fun e he => ?_, t.distinct.filter _⟩
        have other : e.1 ≠ l := by simpa using (List.mem_filter.1 he).2
        exact other.symm }
  else t

theorem at?_put {t : Tree} {l : Location} (h : t.CanHold l) (n : Node) (m : Location) :
    (t.put l n).at? m = if m = l then some n else t.at? m := by
  unfold put
  rw [dif_pos h]
  exact nodeAt?_cons_filter h.1 n m

def clear (t : Tree) (top : Location) : Tree where
  entries := t.entries.filter fun e => !e.1.isBelow top
  grounded := by
    intro e he
    obtain ⟨he, keep⟩ := List.mem_filter.1 he
    obtain ⟨hne, hp⟩ := t.grounded e he
    refine ⟨hne, ?_⟩
    rw [nodeAt?_filter_below, if_neg]
    · exact hp
    · intro hb
      simp [Location.isBelow_of_dropLast hne hb] at keep
  distinct := t.distinct.filter _

theorem at?_clear (t : Tree) (top m : Location) :
    (t.clear top).at? m = if m.isBelow top then none else t.at? m :=
  nodeAt?_filter_below top m

end Tree

end SandboxFetch
