/-
  SandboxFetch.Proofs.Dict — maps that are made of lists, and maps of lists.

  Of two entries with one key the later one counts (`get?_ofList`), so of two lists of entries the
  second one is looked up first (`get?_ofList_append`); where no two entries have one key, the map says
  what the list says (`get?_ofList_eq_some`). A map of lists holds as many values more as one of its
  lists has got longer by (`length_flatten_update`).
-/

import Mathlib.Data.List.Induction
import SandboxFetch.Dict

namespace SandboxFetch.Dict

variable {α : Type}

/-! ## Maps of entries -/

theorem ofList_concat (l : List (String × α)) (e : String × α) : ofList (l ++ [e]) = (ofList l).insert e.1 e.2 := by
  simp [ofList, List.foldl_append]

/-- Of two entries with one key the later one counts. -/
theorem get?_ofList (l : List (String × α)) (k : String) : (ofList l).get? k = l.reverse.lookup k := by
  induction l using List.reverseRecOn with
  | nil => rfl
  | append_singleton l e ih =>
    rw [ofList_concat, get?_insert, ih, List.reverse_append, List.reverse_singleton, List.singleton_append, lookup_cons_eq]

/-- Of two lists of entries the second one is looked up first. -/
theorem get?_ofList_append (xs ys : List (String × α)) (k : String) :
    (ofList (xs ++ ys)).get? k = ((ofList ys).get? k).or ((ofList xs).get? k) := by
  simp only [get?_ofList, List.reverse_append, List.lookup_append]

theorem get?_ofList_singleton (e : String × α) (k : String) :
    (ofList [e]).get? k = if k = e.1 then some e.2 else none := by
  rw [get?_ofList, List.reverse_singleton, lookup_cons_eq, List.lookup_nil]

/-- In a map of entries with different keys, a key has the value that it is listed with. -/
theorem get?_ofList_eq_some {l : List (String × α)} {k : String} {v : α} (distinct : (l.map (·.1)).Nodup) :
    (ofList l).get? k = some v ↔ (k, v) ∈ l := by
  induction l using List.reverseRecOn with
  | nil => simp [get?_ofList]
  | append_singleton l e ih =>
    rw [List.map_append, List.map_singleton, List.nodup_append] at distinct
    obtain ⟨before, -, apart⟩ := distinct
    rw [ofList_concat, get?_insert, List.mem_append, List.mem_singleton]
    obtain ⟨j, w⟩ := e
    by_cases last : k = j
    · subst last
      -- the key of the last entry is none of those before it
      have fresh : (k, v) ∉ l := fun member => apart k (List.mem_map_of_mem member) k (by simp) rfl
      simp [fresh, eq_comm]
    · simp [last, ih before]

/-- A map is the map of its entries. -/
theorem ofList_toList (d : Dict α) : ofList d.toList = d := by
  refine eq_of_get? fun k => ?_
  obtain ⟨l, sorted⟩ := d
  show (ofList l).get? k = l.lookup k
  induction l with
  | nil => rfl
  | cons e rest ih =>
    obtain ⟨first, others⟩ := List.pairwise_cons.1 sorted
    obtain ⟨j, v⟩ := e
    rw [lookup_cons_eq, ← List.singleton_append, get?_ofList_append, ih others, get?_ofList_singleton]
    by_cases same : k = j
    · subst same
      rw [lookup_eq_none_of_lt first]
      simp
    · simp [same]

/-! ## Maps of lists -/

theorem length_flatten_update (d : Dict (List α)) (k : String) {f : Option (List α) → List α} {n : Nat}
    (longer : ∀ o : Option (List α), (f o).length = (o.getD []).length + n) :
    (d.update k f).values.flatten.length = d.values.flatten.length + n := by
  obtain ⟨l, sorted⟩ := d
  show ((updateEntries k f l).map (·.2)).flatten.length = (l.map (·.2)).flatten.length + n
  clear sorted
  have new : (f none).length = n := by simpa using longer none
  induction l with
  | nil => simpa [updateEntries] using new
  | cons e rest ih =>
    obtain ⟨j, v⟩ := e
    have old : (f (some v)).length = v.length + n := longer (some v)
    unfold updateEntries
    split
    · simp only [List.map_cons, List.flatten_cons, List.length_append, new]
      omega
    · split
      · simp only [List.map_cons, List.flatten_cons, List.length_append, old]
        omega
      · simp only [List.map_cons, List.flatten_cons, List.length_append, ih]
        omega

/-- A map of lists holds one value more after one is pushed. -/
theorem length_flatten_push (d : Dict (List α)) (k : String) (x : α) :
    (d.push k x).values.flatten.length = d.values.flatten.length + 1 :=
  length_flatten_update d k fun _ => List.length_append

/-- A map of lists holds no more values after a list is made room for. -/
theorem length_flatten_reserve (d : Dict (List α)) (k : String) :
    (d.reserve k).values.flatten.length = d.values.flatten.length := by
  rw [reserve, length_flatten_update d k fun _ => (Nat.add_zero _).symm, Nat.add_zero]

end SandboxFetch.Dict
