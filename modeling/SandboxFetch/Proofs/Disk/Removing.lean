/-
  SandboxFetch.Proofs.Disk.Removing — what is left after things are removed.

  Whatever an attempt to remove things comes to, a tree only loses what is at or below the place in
  question (`Loses`), and when it succeeds, all of that is gone (`Removes`). This holds for one place,
  for a run through names when it holds for each of them, and hence for whole directories, by
  induction on the levels that are gone down (`removes_removeAll`). A directory whose contents are
  removed is what is left of them (`removes_removeContents`); when nothing in it is refused (`Spares`),
  they all go (`removeContents_ok`), and the tree is the one without them (`eq_clear_of_removeContents`).
-/

import SandboxFetch.Disk.Removing
import SandboxFetch.Proofs.Disk.Walking
import SandboxFetch.Proofs.Results

namespace SandboxFetch

namespace Hindrances

variable {h : Hindrances} {dir : Location}

/-- Nothing in a directory is refused, however far down. -/
structure Spares (h : Hindrances) (dir : Location) : Prop where
  reading : ∀ l, dir <+: l → ∀ n, h.reading l n = none
  removing : ∀ l, l.isBelow dir = true → h.removing l = none

theorem spares_none : Spares {} dir := ⟨fun _ _ _ => rfl, fun _ _ => rfl⟩

theorem Spares.name (spares : h.Spares dir) (name : String) :
    h.removing (dir ++ [name]) = none ∧ h.Spares (dir ++ [name]) := by
  refine ⟨spares.removing _ (Tree.isBelow_iff.2 ⟨_, List.cons_ne_nil _ _, rfl⟩), ?_, ?_⟩
  · intro l inside
    exact spares.reading l ((List.prefix_append dir [name]).trans inside)
  · intro l below
    obtain ⟨rest, -, rfl⟩ := Tree.isBelow_iff.1 below
    exact spares.removing _ (Tree.isBelow_iff.2 ⟨_, List.cons_ne_nil _ _, by rw [List.append_assoc]; rfl⟩)

end Hindrances

namespace Tree

variable {t t' t'' : Tree} {l m dir : Location} {e : Location × Node} {h : Hindrances} {levels n : Nat}
  {name : String} {names : List String} {ε : Type} {W V : Location → Prop}

/-! ## Entries -/

theorem ext_entries (same : t'.entries = t.entries) : t' = t := by
  cases t
  cases t'
  cases same
  rfl

theorem entry_of_at? {node : Node} (there : t.at? m = some node) (inner : m ≠ []) : (m, node) ∈ t.entries := by
  unfold at? nodeAt? at there
  rw [if_neg inner] at there
  obtain ⟨before, after, entries, -⟩ := List.lookup_eq_some_iff.1 there
  simp [entries]

theorem at?_of_mem_names (named : name ∈ t.names dir) : (t.at? (dir ++ [name])).isSome = true := by
  obtain ⟨e, member, last⟩ := List.mem_filterMap.1 named
  split at last
  · next parent =>
    obtain ⟨front, place⟩ := List.getLast?_eq_some_iff.1 last
    rw [place, List.dropLast_concat] at parent
    unfold at? nodeAt?
    rw [if_neg (by simp), List.lookup_isSome_iff]
    exact ⟨e, member, by rw [place, parent]; exact beq_self_eq_true _⟩
  · cases last

/-- Whatever is below a directory is at or below one of its names. -/
theorem exists_name_of_append {rest : List String} (member : e ∈ t.entries) (below : e.1 = l ++ rest)
    (more : rest ≠ []) : ∃ name ∈ t.names l, l ++ [name] <+: e.1 := by
  induction rest using List.reverseRecOn generalizing e with
  | nil => exact absurd rfl more
  | append_singleton front last ih =>
    have parent : e.1.dropLast = l ++ front := by rw [below, ← List.append_assoc, List.dropLast_concat]
    by_cases first : front = []
    · obtain ⟨name, named, same⟩ := mem_names_of_entry member
      rw [parent, first, List.append_nil] at named same
      exact ⟨name, named, same ▸ List.prefix_rfl⟩
    · have there : t.at? (l ++ front) = some .directory := parent ▸ (t.grounded e member).2
      obtain ⟨name, named, inside⟩ := ih (entry_of_at? there (by simp [first])) rfl first
      refine ⟨name, named, inside.trans ?_⟩
      rw [below, ← List.append_assoc]
      exact List.prefix_append _ _

theorem exists_name_of_isBelow (member : e ∈ t.entries) (below : e.1.isBelow l = true) :
    ∃ name ∈ t.names l, l ++ [name] <+: e.1 := by
  obtain ⟨rest, more, split⟩ := isBelow_iff.1 below
  exact exists_name_of_append member split more

theorem names_eq_nil (free : ∀ e ∈ t.entries, e.1.isBelow l = false) : t.names l = [] := by
  rw [names, List.filterMap_eq_nil_iff]
  intro e member
  rw [if_neg]
  intro parent
  have below : e.1.isBelow l = true :=
    isBelow_iff.2 ⟨_, List.cons_ne_nil _ _, by rw [← parent, List.dropLast_concat_getLast (t.grounded e member).1]⟩
  rw [free e member] at below
  cases below

/-! ## What is lost -/

/-- A tree lost some of what is at certain places, and nothing else happened to it. -/
def Loses (t t' : Tree) (W : Location → Prop) : Prop :=
  ∃ gone : Location → Bool, (∀ m, gone m = true → W m) ∧ t'.entries = t.entries.filter fun e => !gone e.1

theorem Loses.refl (t : Tree) (W : Location → Prop) : t.Loses t W :=
  ⟨fun _ => false, fun _ => nofun, (List.filter_eq_self.2 fun _ _ => rfl).symm⟩

theorem Loses.trans (first : t.Loses t' W) (last : t'.Loses t'' W) : t.Loses t'' W := by
  obtain ⟨gone, inside, rest⟩ := first
  obtain ⟨gone', inside', rest'⟩ := last
  refine ⟨fun m => gone m || gone' m, fun m either => ?_, ?_⟩
  · exact (Bool.or_eq_true_iff.1 either).elim (inside m) (inside' m)
  · rw [rest', rest, List.filter_filter]
    exact List.filter_congr fun e _ => by rw [Bool.not_or, Bool.and_comm]

theorem Loses.mono (loses : t.Loses t' W) (sub : ∀ m, W m → V m) : t.Loses t' V := by
  obtain ⟨gone, inside, rest⟩ := loses
  exact ⟨gone, fun m lost => sub m (inside m lost), rest⟩

theorem Loses.mem (loses : t.Loses t' W) (member : e ∈ t'.entries) : e ∈ t.entries := by
  obtain ⟨gone, -, rest⟩ := loses
  rw [rest] at member
  exact (List.mem_filter.1 member).1

/-- Each place is as it was, or it is one of those in question and nothing is there any more. -/
theorem Loses.at? (loses : t.Loses t' W) (m : Location) : t'.at? m = t.at? m ∨ W m ∧ t'.at? m = none := by
  obtain ⟨gone, inside, rest⟩ := loses
  unfold Tree.at? nodeAt?
  rw [rest, lookup_filter_key (fun k => !gone k)]
  by_cases root : m = []
  · rw [if_pos root, if_pos root]
    exact .inl rfl
  · rw [if_neg root, if_neg root]
    cases lost : gone m with
    | false => exact .inl rfl
    | true => exact .inr ⟨inside m lost, rfl⟩

structure Removes (l : Location) (t : Tree) (r : Except ε Unit × Tree) : Prop where
  loses : t.Loses r.2 (l <+: ·)
  all : r.1 = .ok () → ∀ e ∈ r.2.entries, ¬ l <+: e.1

/-! ## One place -/

theorem removes_removeOne : Removes l t (removeOne h l t) := by
  unfold removeOne
  split
  · refine ⟨.refl _ _, fun ok => ?_⟩
    cases ok
  · split
    · next bare =>
      have rest : (t.remove l).entries = t.entries.filter fun e => e.1 != l := by
        unfold remove
        rw [dif_pos bare]
      refine ⟨⟨(· == l), fun m same => eq_of_beq same ▸ List.prefix_rfl, rest⟩, fun _ e member inside => ?_⟩
      rw [rest] at member
      obtain ⟨member, other⟩ := List.mem_filter.1 member
      have below : e.1.isBelow l = true := by
        rw [Location.isBelow, other, List.isPrefixOf_iff_prefix.2 inside]
        rfl
      obtain ⟨name, named, -⟩ := exists_name_of_isBelow member below
      rw [bare] at named
      cases named
    · refine ⟨.refl _ _, fun ok => ?_⟩
      cases ok

/-! ## The names of a directory -/

section Names

variable {fault? : Nat → Option ε} {act : String → Tree → Except ε Unit × Tree}

/-- What a run through names leaves, when each step removes what has its name. -/
theorem removes_eachName (fault? : Nat → Option ε) (n : Nat) (names : List String) (t : Tree)
    (step : ∀ name t, Removes (dir ++ [name]) t (act name t)) :
    t.Loses (eachName fault? act n names t).2 (fun m => ∃ name ∈ names, dir ++ [name] <+: m) ∧
      ((eachName fault? act n names t).1 = .ok () →
        ∀ name ∈ names, ∀ e ∈ (eachName fault? act n names t).2.entries, ¬ dir ++ [name] <+: e.1) := by
  induction names generalizing n t with
  | nil =>
    unfold eachName
    cases fault? n with
    | some fault => exact ⟨.refl _ _, nofun⟩
    | none => exact ⟨.refl _ _, fun _ _ member => nomatch member⟩
  | cons name rest ih =>
    unfold eachName
    cases fault? n with
    | some fault => exact ⟨.refl _ _, nofun⟩
    | none =>
      dsimp only
      have first := step name t
      have inside : ∀ m, dir ++ [name] <+: m → ∃ x ∈ name :: rest, dir ++ [x] <+: m :=
        fun m inside => ⟨name, List.mem_cons_self, inside⟩
      rcases acted : act name t with ⟨fault | ⟨⟩, t'⟩
      · rw [acted] at first
        exact ⟨first.loses.mono inside, nofun⟩
      · rw [acted] at first
        obtain ⟨later, all⟩ := ih (n + 1) t'
        refine ⟨(first.loses.mono inside).trans (later.mono fun m => ?_), fun ok x member e left => ?_⟩
        · exact fun ⟨x, member, inside⟩ => ⟨x, List.mem_cons_of_mem _ member, inside⟩
        · rcases List.mem_cons.1 member with rfl | member
          · exact first.all rfl e (later.mem left)
          · exact all ok x member e left

/-- A run through names stops because there is no reading on, or because a step fails. -/
theorem eachName_eq_error {fault : ε} (failed : (eachName fault? act n names t).1 = .error fault) :
    (∃ n, fault? n = some fault) ∨ ∃ name ∈ names, ∃ t, (act name t).1 = .error fault := by
  induction names generalizing n t with
  | nil =>
    unfold eachName at failed
    cases refused : fault? n with
    | some other =>
      rw [refused] at failed
      cases failed
      exact .inl ⟨n, refused⟩
    | none =>
      rw [refused] at failed
      cases failed
  | cons name rest ih =>
    unfold eachName at failed
    cases refused : fault? n with
    | some other =>
      rw [refused] at failed
      cases failed
      exact .inl ⟨n, refused⟩
    | none =>
      rw [refused] at failed
      dsimp only at failed
      rcases acted : act name t with ⟨other | ⟨⟩, t'⟩
      · rw [acted] at failed
        cases failed
        exact .inr ⟨name, List.mem_cons_self, t, by rw [acted]⟩
      · rw [acted] at failed
        rcases ih failed with reading | ⟨x, member, t, stopped⟩
        · exact .inl reading
        · exact .inr ⟨x, List.mem_cons_of_mem _ member, t, stopped⟩

/-- A run through names goes to its end when nothing is refused and each step succeeds. -/
theorem eachName_ok (inv : Tree → Prop) (free : ∀ n, fault? n = none)
    (step : ∀ name ∈ names, ∀ t, inv t → (act name t).1 = .ok () ∧ inv (act name t).2) (start : inv t) :
    (eachName fault? act n names t).1 = .ok () := by
  induction names generalizing n t with
  | nil =>
    unfold eachName
    rw [free]
  | cons name rest ih =>
    obtain ⟨first, others⟩ := List.forall_mem_cons.1 step
    obtain ⟨ok, kept⟩ := first t start
    rcases acted : act name t with ⟨fault | ⟨⟩, t'⟩
    · rw [acted] at ok
      cases ok
    · rw [acted] at kept
      unfold eachName
      rw [free]
      dsimp only
      rw [acted]
      exact ih others kept

/-- The names of a directory that all went were all that was below it. -/
theorem not_isBelow_of_names (loses : t.Loses t' W)
    (gone : ∀ name ∈ t.names dir, ∀ e ∈ t'.entries, ¬ dir ++ [name] <+: e.1) : ∀ e ∈ t'.entries, e.1.isBelow dir = false := by
  intro e left
  rw [← Bool.not_eq_true]
  intro below
  obtain ⟨name, named, inside⟩ := exists_name_of_isBelow (loses.mem left) below
  exact gone name named e left inside

end Names

/-! ## Places with all that is below them -/

theorem removes_removeAll (levels : Nat) (l : Location) (t : Tree) : Removes l t (removeAll h levels l t) := by
  induction levels generalizing l t with
  | zero => exact removes_removeOne
  | succ levels ih =>
    unfold removeAll
    split
    · obtain ⟨lost, -⟩ := removes_eachName (h.reading l) 0 (t.names l) t fun name t => ih (l ++ [name]) t
      have inside := lost.mono (V := (l <+: ·)) fun m ⟨name, _, inside⟩ => (List.prefix_append l [name]).trans inside
      rcases emptied : eachName (h.reading l) (fun name => removeAll h levels (l ++ [name])) 0 (t.names l) t with
        ⟨fault | ⟨⟩, t'⟩
      · rw [emptied] at inside
        exact ⟨inside, nofun⟩
      · rw [emptied] at inside
        have last : Removes l t' (removeOne h l t') := removes_removeOne
        exact ⟨inside.trans last.loses, last.all⟩
    · exact removes_removeOne

theorem length_le_depth (member : e ∈ t.entries) : e.1.length ≤ t.depth := by
  unfold depth
  generalize t.entries = entries at member
  induction entries with
  | nil => cases member
  | cons first rest ih =>
    rw [List.map_cons, List.foldr_cons]
    rcases List.mem_cons.1 member with rfl | member
    · exact Nat.le_max_left _ _
    · exact Nat.le_trans (ih member) (Nat.le_max_right _ _)

theorem removeOne_ok (free : h.removing l = none) (bare : t.names l = []) : (removeOne h l t).1 = .ok () := by
  unfold removeOne
  rw [free]
  dsimp only
  rw [if_pos bare]

theorem names_eq_nil_of_not_directory (other : t.at? l ≠ some .directory) : t.names l = [] := by
  refine names_eq_nil fun e member => ?_
  rw [← Bool.not_eq_true]
  intro below
  obtain ⟨name, named, -⟩ := exists_name_of_isBelow member below
  obtain ⟨e', member', parent⟩ := List.mem_filterMap.1 named
  split at parent
  · next same => exact other (same ▸ (t.grounded e' member').2)
  · cases parent

/-- With nothing refused, all that is at a place goes when nothing in it is deeper than is gone down. -/
theorem removeAll_ok (free : h.removing l = none) (spares : h.Spares l)
    (deep : ∀ e ∈ t.entries, l <+: e.1 → e.1.length ≤ l.length + levels) : (removeAll h levels l t).1 = .ok () := by
  induction levels generalizing l t with
  | zero =>
    refine removeOne_ok free (names_eq_nil fun e member => ?_)
    rw [← Bool.not_eq_true]
    intro below
    obtain ⟨rest, more, split⟩ := isBelow_iff.1 below
    have short := deep e member ⟨rest, split.symm⟩
    rw [split, List.length_append] at short
    have := List.length_pos_iff.2 more
    omega
  | succ levels ih =>
    unfold removeAll
    split
    · obtain ⟨lost, gone⟩ := removes_eachName (h.reading l) 0 (t.names l) t
        fun name t => removes_removeAll (h := h) levels (l ++ [name]) t
      -- while names are removed the tree only loses entries, so none gets too deep
      have all : (eachName (h.reading l) (fun name => removeAll h levels (l ++ [name])) 0 (t.names l) t).1 = .ok () := by
        refine eachName_ok (fun t' => ∀ e ∈ t'.entries, e ∈ t.entries) (spares.reading l List.prefix_rfl)
          (fun name _ t' sub => ?_) fun _ member => member
        have removed := removes_removeAll (h := h) levels (l ++ [name]) t'
        obtain ⟨free', spares'⟩ := spares.name name
        refine ⟨ih free' spares' fun e member inside => ?_, fun e left => sub e (removed.loses.mem left)⟩
        have short := deep e (sub e member) ((List.prefix_append l [name]).trans inside)
        rw [List.length_append, List.length_singleton]
        omega
      rcases emptied : eachName (h.reading l) (fun name => removeAll h levels (l ++ [name])) 0 (t.names l) t with
        ⟨fault | ⟨⟩, t'⟩
      · rw [emptied] at all
        cases all
      · rw [emptied] at lost gone
        exact removeOne_ok free (names_eq_nil (not_isBelow_of_names lost (gone rfl)))
    · next other => exact removeOne_ok free (names_eq_nil_of_not_directory other)

/-! ## The contents of a directory -/

/-- Removing what has a name does what removing its place does. -/
theorem removeNamed_eq (h : Hindrances) (levels : Nat) (p : Path) (dir : Location) (name : String) (t : Tree) :
    removeNamed h levels p dir name t = ((removeAll h levels (dir ++ [name]) t).1.mapError (p.push name, ·),
      (removeAll h levels (dir ++ [name]) t).2) := by
  unfold removeNamed
  rcases removeAll h levels (dir ++ [name]) t with ⟨fault | ⟨⟩, t'⟩ <;> rfl

theorem removes_removeNamed (h : Hindrances) (levels : Nat) (p : Path) (dir : Location) (name : String) (t : Tree) :
    Removes (dir ++ [name]) t (removeNamed h levels p dir name t) := by
  have removed := removes_removeAll (h := h) levels (dir ++ [name]) t
  rw [removeNamed_eq]
  exact ⟨removed.loses, fun ok => removed.all (mapError_eq_ok.1 ok)⟩

structure RemovesContents (p : Path) (dir : Location) (t : Tree) (r : Except (Path × DiskFault) Unit × Tree) :
    Prop where
  loses : t.Loses r.2 (·.isBelow dir = true)
  all : r.1 = .ok () → ∀ e ∈ r.2.entries, e.1.isBelow dir = false
  /-- What fails is told with the path of the directory, or with that of what is in it. -/
  fault : ∀ q fault, r.1 = .error (q, fault) → q = p ∨ ∃ name ∈ t.names dir, q = p.push name

theorem removes_removeContents (h : Hindrances) (p : Path) (dir : Location) (t : Tree) :
    RemovesContents p dir t (removeContents h p dir t) := by
  obtain ⟨lost, gone⟩ := removes_eachName (fun n => (h.reading dir n).map (p, ·)) 0 (t.names dir) t
    fun name t' => removes_removeNamed h t.depth p dir name t'
  refine ⟨lost.mono fun m ⟨name, _, rest, inside⟩ => ?_, fun ok => not_isBelow_of_names lost (gone ok), ?_⟩
  · exact isBelow_iff.2 ⟨name :: rest, List.cons_ne_nil _ _, by rw [← inside, List.append_assoc]; rfl⟩
  · intro q fault failed
    rcases eachName_eq_error failed with ⟨n, reading⟩ | ⟨name, member, t', stopped⟩
    · obtain ⟨_, -, same⟩ := Option.map_eq_some_iff.1 reading
      cases same
      exact .inl rfl
    · rw [removeNamed_eq] at stopped
      obtain ⟨other, -, same⟩ := mapError_eq_error.1 stopped
      cases same
      exact .inr ⟨name, member, rfl⟩

/-- With nothing refused, all that is in a directory goes. -/
theorem removeContents_ok (spares : h.Spares dir) (p : Path) (t : Tree) : (removeContents h p dir t).1 = .ok () := by
  have readable : ∀ n, (h.reading dir n).map (p, ·) = none := by
    intro n
    rw [spares.reading dir List.prefix_rfl]
    rfl
  refine eachName_ok (fun t' => ∀ e ∈ t'.entries, e ∈ t.entries) readable (fun name _ t' sub => ?_)
    fun _ member => member
  have removed := removes_removeAll (h := h) t.depth (dir ++ [name]) t'
  obtain ⟨free, spares'⟩ := spares.name name
  have shallow : ∀ e ∈ t'.entries, e.1.length ≤ (dir ++ [name]).length + t.depth :=
    fun e member => Nat.le_add_left_of_le (length_le_depth (sub e member))
  rw [removeNamed_eq, removeAll_ok free spares' fun e member _ => shallow e member]
  exact ⟨rfl, fun e left => sub e (removed.loses.mem left)⟩

/-- When the contents of a directory are removed, the tree is what it is without all that is below. -/
theorem eq_clear_of_removeContents {p : Path} (done : (removeContents h p dir t).1 = .ok ()) :
    (removeContents h p dir t).2 = t.clear dir := by
  have removed := removes_removeContents h p dir t
  obtain ⟨gone, inside, rest⟩ := removed.loses
  refine ext_entries (rest.trans (List.filter_congr fun e member => ?_))
  congr 1
  rw [Bool.eq_iff_iff]
  refine ⟨inside e.1, fun below => ?_⟩
  by_contra kept
  have left : e ∈ (removeContents h p dir t).2.entries := by
    rw [rest]
    exact List.mem_filter.2 ⟨member, by simpa using kept⟩
  rw [removed.all done e left] at below
  cases below

end Tree

/-! ## Disks -/

namespace Disk

variable {d d' : Disk} {p : Path} {top : Location} {h : Hindrances}

/-- Where a path leads to a directory, its contents are removed there. -/
theorem removeContents_of_place? (h : Hindrances) (leads : d.place? p = some top)
    (directory : d.tree.at? top = some .directory) : d.removeContents h p =
      ((d.tree.removeContents h p top).1, { d with tree := (d.tree.removeContents h p top).2 }) := by
  unfold removeContents
  rw [locate_of_place? leads]
  exact if_pos directory

/-- When the contents of a directory are removed, it is left without all that was below it. -/
theorem eq_clear_of_removeContents (leads : d.place? p = some top) (directory : d.tree.at? top = some .directory)
    (done : d.removeContents h p = (.ok (), d')) : d' = d.clear p := by
  rw [removeContents_of_place? h leads directory, Prod.mk.injEq] at done
  obtain ⟨done, rfl⟩ := done
  rw [Tree.eq_clear_of_removeContents done]
  unfold clear
  rw [locate_of_place? leads]
  simp only [directory, if_true]

theorem removeContents_ok (leads : d.place? p = some top) (directory : d.tree.at? top = some .directory)
    (spares : h.Spares top) : d.removeContents h p = (.ok (), d.clear p) := by
  have done : d.removeContents h p = (.ok (), (d.removeContents h p).2) := by
    refine Prod.ext ?_ rfl
    rw [removeContents_of_place? h leads directory]
    exact Tree.removeContents_ok spares p d.tree
  rw [done, eq_clear_of_removeContents leads directory done]

end Disk

end SandboxFetch
