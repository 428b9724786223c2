/-
  SandboxFetch.Proofs.Results — computations that end at the first fault.

  A chain that succeeded splits into its parts (`ok_of_bind`), and a list is mapped when each of its
  elements is (`mapM_eq_ok`). Where an element is fine or not whatever was folded before it, a list is
  folded just when all its elements are fine (`exists_foldlM_iff`). What every step keeps, the fold
  keeps, also where it speaks of the elements folded so far (`foldlM_along`); what each element adds is
  there afterwards (`foldlM_adds`), and an element that changes nothing might as well not be there
  (`foldlM_filter`).
-/

import Mathlib.Data.List.Forall2
import Mathlib.Data.List.Induction

namespace SandboxFetch

variable {ε α β σ : Type}

theorem ok_of_bind {x : Except ε α} {f : α → Except ε β} {b : β} (h : x >>= f = .ok b) :
    ∃ a, x = .ok a ∧ f a = .ok b := by
  cases x with
  | error e => cases h
  | ok a => exact ⟨a, rfl, h⟩

theorem ok_then {x : Except ε α} {f : α → Except ε β} {a : α} {b : β} (first : x = .ok a) (next : f a = .ok b) :
    x >>= f = .ok b := by
  rw [first]
  exact next

theorem mapError_eq_ok {x : Except ε α} {f : ε → σ} {a : α} : x.mapError f = .ok a ↔ x = .ok a := by
  cases x <;> simp [Except.mapError]

theorem mapError_eq_error {x : Except ε α} {f : ε → σ} {fault : σ} :
    x.mapError f = .error fault ↔ ∃ reason, x = .error reason ∧ f reason = fault := by
  cases x <;> simp [Except.mapError]

/-! ## Maps -/

/-- A list is mapped when each of its elements is. -/
theorem mapM_eq_ok {f : α → Except ε β} {l : List α} {l' : List β} :
    l.mapM f = .ok l' ↔ List.Forall₂ (fun a b => f a = .ok b) l l' := by
  induction l generalizing l' with
  | nil =>
    constructor
    · intro h
      cases h
      exact .nil
    · intro h
      cases h
      rfl
  | cons a rest ih =>
    rw [List.mapM_cons]
    constructor
    · intro h
      obtain ⟨b, ha, h⟩ := ok_of_bind h
      obtain ⟨bs, hr, h⟩ := ok_of_bind h
      cases h
      exact .cons ha (ih.1 hr)
    · intro h
      obtain ⟨b, bs, ha, hr, rfl⟩ := List.forall₂_cons_left_iff.1 h
      rw [ha, ih.2 hr]
      rfl

/-- A list that is not mapped has an element that is not. -/
theorem exists_of_mapM_eq_error {f : α → Except ε β} {l : List α} {fault : ε}
    (failed : l.mapM f = .error fault) : ∃ a ∈ l, f a = .error fault := by
  induction l with
  | nil => cases failed
  | cons a rest ih =>
    rw [List.mapM_cons] at failed
    cases first : f a with
    | error e =>
      rw [first] at failed
      cases failed
      exact ⟨a, List.mem_cons_self, first⟩
    | ok b =>
      cases others : rest.mapM f with
      | error e =>
        rw [first, others] at failed
        cases failed
        obtain ⟨a', member, last⟩ := ih others
        exact ⟨a', List.mem_cons_of_mem _ member, last⟩
      | ok bs =>
        rw [first, others] at failed
        cases failed

theorem exists_of_mem_right {R : α → β → Prop} {l : List α} {l' : List β} (h : List.Forall₂ R l l')
    {b : β} (member : b ∈ l') : ∃ a ∈ l, R a b := by
  induction h with
  | nil => cases member
  | cons first _ ih =>
    rcases List.mem_cons.1 member with rfl | member
    · exact ⟨_, List.mem_cons_self, first⟩
    · obtain ⟨a, there, related⟩ := ih member
      exact ⟨a, List.mem_cons_of_mem _ there, related⟩

theorem exists_of_mem_left {R : α → β → Prop} {l : List α} {l' : List β} (h : List.Forall₂ R l l')
    {a : α} (member : a ∈ l) : ∃ b, R a b := by
  obtain ⟨b, -, related⟩ := exists_of_mem_right h.flip member
  exact ⟨b, related⟩

/-- Lists are equal when their elements are that belong together. -/
theorem eq_of_forall₂ {R : α → α → Prop} {l l' : List α} (h : List.Forall₂ R l l')
    (same : ∀ a ∈ l, ∀ b ∈ l', R a b → a = b) : l = l' := by
  induction h with
  | nil => rfl
  | cons first _ ih =>
    rw [same _ List.mem_cons_self _ List.mem_cons_self first]
    rw [ih fun a there b there' => same a (List.mem_cons_of_mem _ there) b (List.mem_cons_of_mem _ there')]

/-- Elements that each have a partner make a list that has one. -/
theorem exists_forall₂ {R : α → β → Prop} {l : List α} (each : ∀ a ∈ l, ∃ b, R a b) :
    ∃ l', List.Forall₂ R l l' := by
  induction l with
  | nil => exact ⟨[], .nil⟩
  | cons a rest ih =>
    obtain ⟨b, first⟩ := each a List.mem_cons_self
    obtain ⟨l', others⟩ := ih fun x member => each x (List.mem_cons_of_mem a member)
    exact ⟨b :: l', .cons first others⟩

/-! ## Folds -/

variable {f : σ → α → Except ε σ} {l : List α} {s s' : σ}

theorem foldlM_cons_of_ok {a : α} {mid : σ} (first : f s a = .ok mid) : (a :: l).foldlM f s = l.foldlM f mid := by
  rw [List.foldlM_cons, first]
  rfl

/-- A fold goes on from what its front came to. -/
theorem foldlM_append_of_ok {more : List α} {mid : σ} (front : l.foldlM f s = .ok mid) :
    (l ++ more).foldlM f s = more.foldlM f mid := by
  rw [List.foldlM_append, front]
  rfl

/-- A list is folded just when all its elements are fine, when that does not hang on what came before. -/
theorem exists_foldlM_iff {fine : α → Prop} (each : ∀ s a, (∃ s', f s a = .ok s') ↔ fine a) :
    (∃ s', l.foldlM f s = .ok s') ↔ ∀ a ∈ l, fine a := by
  induction l generalizing s with
  | nil => exact ⟨fun _ _ member => (nomatch member), fun _ => ⟨s, rfl⟩⟩
  | cons a rest ih =>
    rw [List.forall_mem_cons, ← each s a, List.foldlM_cons]
    constructor
    · rintro ⟨s', done⟩
      obtain ⟨mid, first, done⟩ := ok_of_bind done
      exact ⟨⟨mid, first⟩, ih.1 ⟨s', done⟩⟩
    · rintro ⟨⟨mid, first⟩, others⟩
      rw [first]
      exact ih.2 others

/-- What every step keeps of the elements folded so far and of what came of them, holds in the end. -/
theorem foldlM_along (inv : List α → σ → Prop) (done : l.foldlM f s = .ok s')
    (step : ∀ front a mid mid', front ++ [a] <+: l → inv front mid → f mid a = .ok mid' → inv (front ++ [a]) mid')
    (start : inv [] s) : inv l s' := by
  induction l using List.reverseRecOn generalizing s' with
  | nil =>
    cases done
    exact start
  | append_singleton front a ih =>
    rw [List.foldlM_append] at done
    obtain ⟨mid, before, last⟩ := ok_of_bind done
    have last : f mid a = .ok s' := by simpa using last
    have earlier := ih before fun front' a' mid mid' inside =>
      step front' a' mid mid' (inside.trans (List.prefix_append _ _))
    exact step front a mid s' List.prefix_rfl earlier last

theorem foldlM_keeps {inv : σ → Prop} (done : l.foldlM f s = .ok s')
    (step : ∀ s a s', inv s → f s a = .ok s' → inv s') (start : inv s) : inv s' :=
  foldlM_along (fun _ => inv) done (fun _ a mid mid' _ => step mid a mid') start

/-- What holds after a fold held before it or was added by an element. -/
theorem foldlM_adds {holds : σ → Prop} {adds : α → Prop} (done : l.foldlM f s = .ok s')
    (step : ∀ s a s', f s a = .ok s' → (holds s' ↔ holds s ∨ adds a)) : holds s' ↔ holds s ∨ ∃ a ∈ l, adds a := by
  refine foldlM_along (fun front mid => holds mid ↔ holds s ∨ ∃ a ∈ front, adds a) done ?_ (by simp)
  intro front a mid mid' _ before last
  rw [step mid a mid' last, before]
  simp [or_and_right, exists_or, or_assoc]

/-- Elements that change nothing can be left out of a fold. -/
theorem foldlM_filter {keep : α → Bool} (idle : ∀ a ∈ l, keep a = false → ∀ s, f s a = .ok s) :
    (l.filter keep).foldlM f s = l.foldlM f s := by
  induction l generalizing s with
  | nil => rfl
  | cons a rest ih =>
    obtain ⟨first, others⟩ := List.forall_mem_cons.1 idle
    rw [List.foldlM_cons]
    cases kept : keep a with
    | true =>
      rw [List.filter_cons_of_pos kept, List.foldlM_cons]
      cases f s a with
      | error fault => rfl
      | ok mid => exact ih others
    | false =>
      rw [List.filter_cons_of_neg (by simp [kept]), first kept]
      exact ih others

/-- Two computations that do the same to every element fold a list alike. -/
theorem foldlM_congr {g : σ → α → Except ε σ} (same : ∀ a ∈ l, ∀ s, f s a = g s a) : l.foldlM f s = l.foldlM g s := by
  induction l generalizing s with
  | nil => rfl
  | cons a rest ih =>
    obtain ⟨first, others⟩ := List.forall_mem_cons.1 same
    rw [List.foldlM_cons, List.foldlM_cons, first s]
    cases g s a with
    | error fault => rfl
    | ok mid => exact ih others

end SandboxFetch
