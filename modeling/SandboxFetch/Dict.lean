/-
  SandboxFetch.Dict — finite maps with text keys, listed in key order.

  Component files, build properties and the change sets of a report are read and written in the
  order of their keys, so the order belongs to the type: the entries are sorted by key and no key
  occurs twice (`sorted`). Text is ordered by code point, which is also the order of its UTF-8
  bytes. `update` is the one way to change a map; a look-up after it sees the new value at its own
  key and the old ones elsewhere (`get?_update`). Two maps with the same look-ups are the same map
  (`eq_of_get?`).
-/

namespace SandboxFetch

/-- A finite map from text to `α`, in key order. -/
structure Dict (α : Type) where
  entries : List (String × α) := []
  sorted : entries.Pairwise fun a b => a.1 < b.1 := by exact .nil
  deriving DecidableEq

namespace Dict

variable {α β : Type}

instance : EmptyCollection (Dict α) := ⟨{}⟩

instance : Inhabited (Dict α) := ⟨∅⟩

@[ext] theorem ext {a b : Dict α} (h : a.entries = b.entries) : a = b := by
  cases a; cases b; cases h; rfl

def toList (d : Dict α) : List (String × α) := d.entries

def keys (d : Dict α) : List String := d.entries.map (·.1)

def values (d : Dict α) : List α := d.entries.map (·.2)

def size (d : Dict α) : Nat := d.entries.length

def isEmpty (d : Dict α) : Bool := d.entries.isEmpty

def get? (d : Dict α) (k : String) : Option α := d.entries.lookup k

def contains (d : Dict α) (k : String) : Bool := (d.get? k).isSome

/-! ## Updates -/

/-- The entries after the value at `k` is replaced by `f` of it. -/
def updateEntries (k : String) (f : Option α → α) : List (String × α) → List (String × α)
  | [] => [(k, f none)]
  | (j, v) :: rest =>
    if k < j then (k, f none) :: (j, v) :: rest
    else if k = j then (j, f (some v)) :: rest
    else (j, v) :: updateEntries k f rest

theorem key_of_mem_updateEntries {k : String} {f : Option α → α} {e : String × α} {l : List (String × α)}
    (h : e ∈ updateEntries k f l) : e.1 = k ∨ ∃ v, (e.1, v) ∈ l := by
  induction l with
  | nil =>
    simp only [updateEntries, List.mem_singleton] at h
    exact .inl (by rw [h])
  | cons hd rest ih =>
    obtain ⟨j, v⟩ := hd
    unfold updateEntries at h
    split at h
    · rcases List.mem_cons.1 h with rfl | h
      · exact .inl rfl
      · exact .inr ⟨e.2, h⟩
    · split at h
      · next hk =>
        rcases List.mem_cons.1 h with rfl | h
        · exact .inl hk.symm
        · exact .inr ⟨e.2, List.mem_cons_of_mem _ h⟩
      · rcases List.mem_cons.1 h with rfl | h
        · exact .inr ⟨v, by simp⟩
        · exact (ih h).imp id fun ⟨w, hw⟩ => ⟨w, List.mem_cons_of_mem _ hw⟩

theorem sorted_updateEntries (k : String) (f : Option α → α) {l : List (String × α)}
    (h : l.Pairwise fun a b => a.1 < b.1) : (updateEntries k f l).Pairwise fun a b => a.1 < b.1 := by
  induction l with
  | nil => simp [updateEntries]
  | cons hd rest ih =>
    obtain ⟨j, v⟩ := hd
    obtain ⟨first, others⟩ := List.pairwise_cons.1 h
    unfold updateEntries
    split
    · next hk =>
      refine List.pairwise_cons.2 ⟨fun e he => ?_, h⟩
      rcases List.mem_cons.1 he with rfl | he
      · exact hk
      · exact String.lt_trans hk (first e he)
    · next hk =>
      split
      · exact List.pairwise_cons.2 ⟨first, others⟩
      · next hne =>
        refine List.pairwise_cons.2 ⟨fun e he => ?_, ih others⟩
        rcases key_of_mem_updateEntries he with he | ⟨w, hw⟩
        · have : j < k := by
            rcases Std.lt_trichotomy k j with h | h | h
            · exact absurd h hk
            · exact absurd h hne
            · exact h
          rw [he]; exact this
        · exact first (e.1, w) hw

/-- The map with the value at `k` replaced by `f` of it, which is `none` when the key is new. -/
def update (d : Dict α) (k : String) (f : Option α → α) : Dict α :=
  ⟨updateEntries k f d.entries, sorted_updateEntries k f d.sorted⟩

def insert (d : Dict α) (k : String) (v : α) : Dict α := d.update k fun _ => v

/-- The map of a list of entries; of two entries with one key the later one counts. -/
def ofList (l : List (String × α)) : Dict α := l.foldl (fun d e => d.insert e.1 e.2) ∅

def push (d : Dict (List α)) (k : String) (x : α) : Dict (List α) := d.update k fun o => o.getD [] ++ [x]

/-- The map with a list at `k`, an empty one when the key is new. -/
def reserve (d : Dict (List α)) (k : String) : Dict (List α) := d.update k fun o => o.getD []

/-! ## Look-ups -/

theorem lookup_cons_eq (j i : String) (v : α) (rest : List (String × α)) :
    List.lookup j ((i, v) :: rest) = if j = i then some v else rest.lookup j := by
  rw [List.lookup_cons]
  by_cases h : j = i
  · simp [h]
  · rw [show (j == i) = false by simpa using h, if_neg h]

theorem lookup_eq_none_of_lt {k : String} {l : List (String × α)} (h : ∀ e ∈ l, k < e.1) : l.lookup k = none := by
  induction l with
  | nil => rfl
  | cons hd rest ih =>
    obtain ⟨j, v⟩ := hd
    have hk : k ≠ j := fun e => String.lt_irrefl j (by simpa [e] using h (j, v) (by simp))
    rw [lookup_cons_eq, if_neg hk]
    exact ih fun e he => h e (List.mem_cons_of_mem _ he)

theorem lookup_updateEntries (k j : String) (f : Option α → α) {l : List (String × α)}
    (h : l.Pairwise fun a b => a.1 < b.1) :
    (updateEntries k f l).lookup j = if j = k then some (f (l.lookup k)) else l.lookup j := by
  induction l with
  | nil => rw [updateEntries, lookup_cons_eq]; rfl
  | cons hd rest ih =>
    obtain ⟨i, v⟩ := hd
    obtain ⟨first, others⟩ := List.pairwise_cons.1 h
    unfold updateEntries
    split
    · next hk =>
      have absent : List.lookup k ((i, v) :: rest) = none := by
        apply lookup_eq_none_of_lt
        intro e he
        rcases List.mem_cons.1 he with rfl | he
        · exact hk
        · exact String.lt_trans hk (first e he)
      rw [absent, lookup_cons_eq]
    · split
      · next hki =>
        subst hki
        simp only [lookup_cons_eq]
        by_cases hj : j = k <;> simp [hj]
      · next hne =>
        simp only [lookup_cons_eq, ih others, if_neg hne]
        by_cases hji : j = i
        · subst hji; simp [Ne.symm hne]
        · simp [hji]

@[simp] theorem get?_update (d : Dict α) (k j : String) (f : Option α → α) :
    (d.update k f).get? j = if j = k then some (f (d.get? k)) else d.get? j :=
  lookup_updateEntries k j f d.sorted

@[simp] theorem get?_insert (d : Dict α) (k j : String) (v : α) :
    (d.insert k v).get? j = if j = k then some v else d.get? j :=
  get?_update d k j _

@[simp] theorem get?_empty (k : String) : (∅ : Dict α).get? k = none := rfl

theorem get?_eq_some_iff {d : Dict α} {k : String} {v : α} : d.get? k = some v ↔ (k, v) ∈ d.entries := by
  obtain ⟨l, h⟩ := d
  show l.lookup k = some v ↔ (k, v) ∈ l
  induction l with
  | nil => simp
  | cons hd rest ih =>
    obtain ⟨j, w⟩ := hd
    obtain ⟨first, others⟩ := List.pairwise_cons.1 h
    rw [lookup_cons_eq]
    by_cases hk : k = j
    · subst hk
      simp only [if_true, Option.some.injEq, List.mem_cons, Prod.mk.injEq, true_and]
      exact ⟨fun e => .inl e.symm, fun e => e.elim Eq.symm fun m => absurd (first _ m) (String.lt_irrefl _)⟩
    · simp [hk, ih others]

theorem eq_of_get? {a b : Dict α} (h : ∀ k, a.get? k = b.get? k) : a = b := by
  have mem : ∀ e, e ∈ a.entries ↔ e ∈ b.entries := fun ⟨k, v⟩ => by
    rw [← get?_eq_some_iff, ← get?_eq_some_iff, h k]
  have nodup : ∀ d : Dict α, d.entries.Nodup := fun d =>
    d.sorted.imp fun {x y} (hxy : x.1 < y.1) (e : x = y) => String.lt_irrefl y.1 (by rw [e] at hxy; exact hxy)
  apply ext
  have perm := (List.perm_ext_iff_of_nodup (nodup a) (nodup b)).2 mem
  exact perm.eq_of_pairwise (fun x y _ _ hxy hyx => absurd (String.lt_trans hxy hyx) (String.lt_irrefl _)) a.sorted b.sorted

end Dict

end SandboxFetch
