/-
  SandboxFetch.Proofs.Json.Shortening — typed data that is read where defaults are left out.

  A kind of record has keys that may be left out where they have their defaults, and members within
  which something may be left out (`Leeway`). A value that is shortened at one place (`Shortened`) is
  read as the same record but for the key that it was shortened at (`asRecord_shortened`), and that key
  gives what it gave: its default is the value that was left out, or what was shortened within it is
  read as before. So what the longer value is read as, the shorter one is read as (`Retains`).
-/

import Mathlib.Data.List.Nodup
import Mathlib.Logic.Relation
import SandboxFetch.Proofs.Json.Record

namespace SandboxFetch.Json

variable {α β : Type}

/-- What the first computation gives, the second one gives. -/
def Retains {ε : Type} (x y : Except ε α) : Prop := ∀ a, x = .ok a → y = .ok a

namespace Retains

variable {ε : Type} {x y : Except ε α}

theorem refl (x : Except ε α) : Retains x x := fun _ done => done

theorem bind {f g : α → Except ε β} (first : Retains x y) (next : ∀ a, Retains (f a) (g a)) :
    Retains (x >>= f) (y >>= g) := by
  intro b done
  obtain ⟨a, hx, hf⟩ := ok_of_bind done
  rw [first a hx]
  exact next a b hf

theorem map (first : Retains x y) (f : α → β) : Retains (x.map f) (y.map f) := by
  intro b done
  cases x with
  | error fault => cases done
  | ok a =>
    rw [first a rfl]
    exact done

end Retains

/-! ## Shortened values -/

/-- What may be left out of a kind of record. -/
structure Leeway where
  /-- The keys that may be left out where they have the values given here. -/
  optional : List (String × Json)
  /-- The keys within whose values something may be left out. -/
  within : List (String × (Json → Json → Prop))

/-- Something is left out at one place of an object. -/
inductive Shortened (l : Leeway) : Json → Json → Prop
  | leave (front back : List (String × Json)) {key : String} {v : Json} (default : l.optional.lookup key = some v) :
      Shortened l (.object (front ++ (key, v) :: back)) (.object (front ++ back))
  | within (front back : List (String × Json)) {key : String} {change : Json → Json → Prop} {v v' : Json}
      (inside : l.within.lookup key = some change) (changed : change v v') :
      Shortened l (.object (front ++ (key, v) :: back)) (.object (front ++ (key, v') :: back))

/-- Any members that have their defaults may be left out one after the other. -/
theorem shortened_filter {l : Leeway} (keep : String × Json → Bool) (front members : List (String × Json))
    (default : ∀ m ∈ members, keep m = false → l.optional.lookup m.1 = some m.2) :
    Relation.ReflTransGen (Shortened l) (.object (front ++ members)) (.object (front ++ members.filter keep)) := by
  induction members generalizing front with
  | nil => exact .refl
  | cons m rest ih =>
    obtain ⟨first, others⟩ := List.forall_mem_cons.1 default
    cases kept : keep m with
    | true =>
      have step := ih (front ++ [m]) others
      rw [List.filter_cons_of_pos kept]
      simpa using step
    | false =>
      rw [List.filter_cons_of_neg (by simp [kept])]
      exact .head (.leave front rest (first kept)) (ih front others)

/-- What may be left out of a member step by step may be left out of the object. -/
theorem shortened_within {l : Leeway} (front back : List (String × Json)) {key : String} {change : Json → Json → Prop}
    {v v' : Json} (inside : l.within.lookup key = some change) (changed : Relation.ReflTransGen change v v') :
    Relation.ReflTransGen (Shortened l) (.object (front ++ (key, v) :: back)) (.object (front ++ (key, v') :: back)) := by
  induction changed with
  | refl => exact .refl
  | tail _ last ih => exact ih.tail (.within front back inside last)

inductive AtItem (change : Json → Json → Prop) : Json → Json → Prop
  | item (front back : List Json) {v v' : Json} (changed : change v v') :
      AtItem change (.array (front ++ v :: back)) (.array (front ++ v' :: back))

variable {l : Leeway} {v v' : Json}

theorem Shortened.ne_null (shortened : Shortened l v v') : v ≠ .null ∧ v' ≠ .null := by
  cases shortened <;> exact ⟨Json.noConfusion, Json.noConfusion⟩

theorem AtItem.ne_null {change : Json → Json → Prop} (changed : AtItem change v v') : v ≠ .null ∧ v' ≠ .null := by
  cases changed
  exact ⟨Json.noConfusion, Json.noConfusion⟩

theorem mem_of_lookup {γ : Type _} {entries : List (String × γ)} {key : String} {x : γ}
    (found : entries.lookup key = some x) : (key, x) ∈ entries := by
  obtain ⟨before, behind, rfl, -⟩ := List.lookup_eq_some_iff.1 found
  simp

theorem writable_of_shortened (shortened : Shortened l v v')
    (inner : ∀ e ∈ l.within, ∀ w w', e.2 w w' → Writable w → Writable w')
    (writable : Writable v) : Writable v' := by
  cases shortened with
  | leave front back default =>
    rw [writable_object] at writable ⊢
    intro m member
    refine writable m ?_
    rcases List.mem_append.1 member with member | member
    · exact List.mem_append_left _ member
    · exact List.mem_append_right _ (List.mem_cons_of_mem _ member)
  | within front back inside changed =>
    rw [writable_object, List.forall_mem_append, List.forall_mem_cons] at writable ⊢
    obtain ⟨before, here, behind⟩ := writable
    exact ⟨before, inner _ (mem_of_lookup inside) _ _ changed here, behind⟩

theorem writable_of_atItem {change : Json → Json → Prop} (changed : AtItem change v v')
    (inner : ∀ {w w'}, change w w' → Writable w → Writable w') (writable : Writable v) : Writable v' := by
  obtain ⟨front, back, changed⟩ := changed
  rw [writable_array, List.forall_mem_append, List.forall_mem_cons] at writable ⊢
  obtain ⟨before, here, behind⟩ := writable
  exact ⟨before, inner changed here, behind⟩

/-! ## Shortened records -/

/-- Two records say the same of every key but one, which says `v` before and `o` after. -/
structure Record.DifferAt (key : String) (v : Json) (o : Option Json) (r r' : Record) : Prop where
  before : r.members.lookup key = some v
  after : r'.members.lookup key = o
  others : ∀ k, k ≠ key → r'.members.lookup k = r.members.lookup k

inductive Record.Shortened (l : Leeway) (r r' : Record) : Prop
  | leave {key : String} {v : Json} (differ : DifferAt key v none r r') (default : l.optional.lookup key = some v)
  | within {key : String} {change : Json → Json → Prop} {v v' : Json} (differ : DifferAt key v (some v') r r')
      (inside : l.within.lookup key = some change) (changed : change v v')

theorem lookup_eq_none {members : List (String × Json)} {key : String} (absent : key ∉ members.map (·.1)) :
    members.lookup key = none := by
  rw [List.lookup_eq_none_iff]
  intro m member
  rw [bne_iff_ne]
  intro same
  exact absent (same ▸ List.mem_map_of_mem member)

/-- Where one member of an object is replaced or left out, the record that is read from it differs at its key. -/
theorem asRecord_differAt {keys : List String} {r : Record} {front back : List (String × Json)} {key : String} {w : Json}
    (o : Option Json) (known : key ∈ keys) (done : asRecord keys (.object (front ++ (key, w) :: back)) = .ok r) :
    ∃ r', asRecord keys (.object (front ++ ((o.map (key, ·)).toList ++ back))) = .ok r' ∧ r.DifferAt key w o r' := by
  have taken : (((key, w) :: back).filter fun m => keys.contains m.1) =
      (key, w) :: back.filter fun m => keys.contains m.1 := List.filter_cons_of_pos (List.contains_iff_mem.2 known)
  have instead : ((o.map (key, ·)).toList.filter fun m => keys.contains m.1) = (o.map (key, ·)).toList := by
    cases o <;> simp [known]
  -- the key is in neither part around the member, so only its own value is another one
  rw [asRecord_object_eq_ok, List.filter_append, taken] at done
  obtain ⟨distinct, rfl⟩ := done
  generalize cut : (front.filter fun m => keys.contains m.1) = front' at distinct
  generalize cut' : (back.filter fun m => keys.contains m.1) = back' at distinct
  rw [List.map_append, List.map_cons, List.nodup_middle, List.nodup_cons, List.mem_append, not_or] at distinct
  obtain ⟨⟨before, behind⟩, distinct⟩ := distinct
  refine ⟨_, asRecord_object_eq_ok.2 ⟨?_, rfl⟩, ?_⟩
  · rw [List.filter_append, List.filter_append, instead, cut, cut']
    cases o with
    | none => simpa using distinct
    | some w' =>
      rw [Option.map_some, Option.toList_some, List.singleton_append, List.map_append, List.map_cons, List.nodup_middle,
        List.nodup_cons, List.mem_append, not_or]
      exact ⟨⟨before, behind⟩, distinct⟩
  · rw [List.filter_append, List.filter_append, instead, cut, cut']
    exact {
      before := by simp [List.lookup_append, lookup_eq_none before]
      after := by cases o <;> simp [List.lookup_append, lookup_eq_none before, lookup_eq_none behind]
      others := by
        intro k apart
        have other : (k == key) = false := by simpa using apart
        cases o <;> simp [List.lookup_append, List.lookup_cons, other] }

/-- A record that is read from a value is read from the shortened one, with what was left out. -/
theorem asRecord_shortened {keys : List String} {r : Record} (optional : l.optional.map (·.1) ⊆ keys)
    (within : l.within.map (·.1) ⊆ keys) (shortened : Shortened l v v') (done : asRecord keys v = .ok r) :
    ∃ r', asRecord keys v' = .ok r' ∧ r.Shortened l r' := by
  cases shortened with
  | leave front back default =>
    obtain ⟨r', done', differ⟩ := asRecord_differAt none (optional (List.mem_map_of_mem (mem_of_lookup default))) done
    exact ⟨r', done', .leave differ default⟩
  | @within front back key change v v' inside changed =>
    obtain ⟨r', done', differ⟩ := asRecord_differAt (some v') (within (List.mem_map_of_mem (mem_of_lookup inside))) done
    exact ⟨r', done', .within differ inside changed⟩

/-- What is read of records that retain what they give is retained. -/
theorem retains_record {keys : List String} {body : Record → Except Fault α} (optional : l.optional.map (·.1) ⊆ keys)
    (within : l.within.map (·.1) ⊆ keys) (shortened : Shortened l v v')
    (each : ∀ {r r'}, Record.Shortened l r r' → Retains (body r) (body r')) :
    Retains (asRecord keys v >>= body) (asRecord keys v' >>= body) := by
  intro a done
  obtain ⟨r, hr, ha⟩ := ok_of_bind done
  obtain ⟨r', hr', shorter⟩ := asRecord_shortened optional within shortened hr
  rw [hr']
  exact each shorter a ha

namespace Record.Shortened

variable {r r' : Record} {k : String} {read : Json → Except Fault α} {default : α} {d : Json}

/-- A key that must be there, and that nothing is left out of, gives what it gave. -/
theorem required (shorter : Record.Shortened l r r') (needed : l.optional.lookup k = none)
    (whole : l.within.lookup k = none) : Retains (r.required k read) (r'.required k read) := by
  have same : r'.members.lookup k = r.members.lookup k := by
    cases shorter with
    | @leave key v differ default =>
      refine differ.others k ?_
      rintro rfl
      rw [needed] at default
      cases default
    | @within key change v v' differ inside changed =>
      refine differ.others k ?_
      rintro rfl
      rw [whole] at inside
      cases inside
  unfold Record.required
  rw [same]
  exact .refl _

/-- A key gives what it gave when its default is what may be left out, and what may be left out within
    its value makes no difference. -/
theorem withDefault_of_forall (shorter : Record.Shortened l r r') (listed : l.optional.lookup k = some d)
    (reads : read d = .ok default)
    (inner : ∀ change w w', l.within.lookup k = some change → change w w' → Retains (read w) (read w')) :
    Retains (r.withDefault k default read) (r'.withDefault k default read) := by
  unfold Record.withDefault
  cases shorter with
  | @leave key v differ left =>
    by_cases here : k = key
    · subst here
      rw [listed] at left
      cases left
      rw [differ.before, differ.after]
      show Retains (read d) (.ok default)
      rw [reads]
      exact .refl _
    · rw [differ.others k here]
      exact .refl _
  | @within key change v v' differ inside changed =>
    by_cases here : k = key
    · subst here
      rw [differ.before, differ.after]
      exact inner change v v' inside changed
    · rw [differ.others k here]
      exact .refl _

theorem withDefault (shorter : Record.Shortened l r r') (listed : l.optional.lookup k = some d)
    (reads : read d = .ok default) (whole : l.within.lookup k = none) :
    Retains (r.withDefault k default read) (r'.withDefault k default read) := by
  refine shorter.withDefault_of_forall listed reads fun change w w' inside _ => ?_
  rw [whole] at inside
  cases inside

theorem withDefault_within (shorter : Record.Shortened l r r') {change : Json → Json → Prop}
    (listed : l.optional.lookup k = some d) (reads : read d = .ok default) (inside : l.within.lookup k = some change)
    (inner : ∀ {w w'}, change w w' → Retains (read w) (read w')) :
    Retains (r.withDefault k default read) (r'.withDefault k default read) := by
  refine shorter.withDefault_of_forall listed reads fun change' w w' inside' changed => ?_
  rw [inside] at inside'
  cases inside'
  exact inner changed

end Record.Shortened

/-! ## Lists and options -/

theorem retains_asList {read : Json → Except Fault α} {change : Json → Json → Prop}
    (each : ∀ {w w'}, change w w' → Retains (read w) (read w')) (changed : AtItem change v v') :
    Retains (asList read v) (asList read v') := by
  obtain ⟨front, back, allowed⟩ := changed
  show Retains ((front ++ _ :: back).mapM read) ((front ++ _ :: back).mapM read)
  rw [List.mapM_append, List.mapM_append, List.mapM_cons, List.mapM_cons]
  exact .bind (.refl _) fun _ => .bind (.bind (each allowed) fun _ => .refl _) fun _ => .refl _

theorem retains_asOption {read : Json → Except Fault α} (given : v ≠ .null ∧ v' ≠ .null)
    (kept : Retains (read v) (read v')) : Retains (asOption read v) (asOption read v') := by
  rw [asOption_of_ne given.1, asOption_of_ne given.2]
  exact kept.map some

end SandboxFetch.Json
