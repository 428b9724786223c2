/-
  SandboxFetch.Proofs.Repository.Building — what a repository has that was built from a fixture.

  Ids are drawn in the order of their numbers (`Advances`), and each source draws the id of its
  workspace last, so the sources of a repository have different workspaces
  (`ofFixture_distinctWorkspaces`) and a handle means one source. No source has made a baseline yet
  (`ofFixture_baselines`).
-/

import Mathlib.Data.List.Forall2
import SandboxFetch.Proofs.Repository.Operations

namespace SandboxFetch

/-! ## Drawing ids -/

namespace Fresh

variable {α β : Type}

theorem bind_eq_ok {x : Fresh α} {f : α → Fresh β} {s s' : IdSupply} {b : β} :
    (x >>= f) s = .ok (b, s') ↔ ∃ a mid, x s = .ok (a, mid) ∧ f a mid = .ok (b, s') := by
  show (x s >>= fun p => f p.1 p.2) = _ ↔ _
  rcases x s with e | ⟨a, mid⟩
  · constructor
    · intro h
      cases h
    · rintro ⟨_, _, h, -⟩
      cases h
  · constructor
    · intro h
      exact ⟨a, mid, rfl, h⟩
    · rintro ⟨_, _, h, hf⟩
      cases h
      exact hf

/-- A computation that draws ids in the order of their numbers, from one stem. -/
def Advances (x : Fresh α) : Prop :=
  ∀ (s s' : IdSupply) (a : α), x s = .ok (a, s') → s'.stem = s.stem ∧ s.next ≤ s'.next

theorem advances_pure (a : α) : Advances (pure a) := by
  intro s s' b h
  cases h
  exact ⟨rfl, Nat.le_refl _⟩

theorem advances_throw (e : RepositoryError) : Advances (throw e : Fresh α) := by
  intro s s' b h
  cases h

theorem advances_id : Advances Fresh.id := by
  intro s s' b h
  cases h
  exact ⟨rfl, Nat.le_succ_of_le (IdSupply.le_firstFree ..)⟩

theorem Advances.bind {x : Fresh α} {f : α → Fresh β} (hx : Advances x) (hf : ∀ a, Advances (f a)) :
    Advances (x >>= f) := by
  intro s s' b h
  obtain ⟨a, mid, first, second⟩ := bind_eq_ok.1 h
  obtain ⟨stem, le⟩ := hx _ _ _ first
  obtain ⟨stem', le'⟩ := hf a _ _ _ second
  exact ⟨stem'.trans stem, Nat.le_trans le le'⟩

theorem Advances.mapM {f : α → Fresh β} (hf : ∀ a, Advances (f a)) (l : List α) : Advances (l.mapM f) := by
  induction l with
  | nil => exact advances_pure _
  | cons a rest ih =>
    rw [List.mapM_cons]
    exact (hf a).bind fun b => ih.bind fun bs => advances_pure _

theorem advances_orId (given : Option ItemId) : Advances (orId given) := by
  cases given with
  | none => exact advances_id
  | some id => exact advances_pure id

end Fresh

/-! ## Sources -/

namespace Source

open Fresh (Advances)

theorem advances_storeComponent (f : ComponentFixture) : Advances (storeComponent f) :=
  (Fresh.advances_orId f.id).bind fun _ => Fresh.advances_pure _

theorem advances_pendingOf (now : Timestamp) (source : String) (components : List StoredComponent)
    (f : PendingFixture) : Advances (pendingOf now source components f) := by
  refine (Fresh.advances_orId f.id).bind fun id => ?_
  split
  · exact Fresh.advances_throw _
  · exact Fresh.advances_pure _

theorem advances_componentChangeOf (components : List StoredComponent) (f : ComponentChangeFixture) :
    Advances (componentChangeOf components f) := by
  unfold componentChangeOf
  split
  · exact Fresh.advances_pure _
  · exact Fresh.advances_id.bind fun _ => Fresh.advances_pure _

/-- A source that was built has made no baseline, and its workspace has the last id it drew. -/
theorem ofFixture_eq_ok {now : Timestamp} {f : SourceFixture} {ids ids' : IdSupply} {s : Source}
    (built : ofFixture now f ids = .ok (s, ids')) :
    s.baselines = 0 ∧ ids'.stem = ids.stem ∧
      ∃ n, s.workspace = IdSupply.idAt ids.stem n ∧ ids.next ≤ n ∧ n < ids'.next := by
  unfold ofFixture at built
  obtain ⟨components, s₁, first, built⟩ := Fresh.bind_eq_ok.1 built
  obtain ⟨pending, s₂, second, built⟩ := Fresh.bind_eq_ok.1 built
  obtain ⟨changes, s₃, third, built⟩ := Fresh.bind_eq_ok.1 built
  -- each part of the source draws ids in order, and the workspace draws the last one
  have h₁ := Advances.mapM advances_storeComponent _ _ _ _ first
  have h₂ := Advances.mapM (advances_pendingOf now f.name components) _ _ _ _ second
  have h₃ := Advances.mapM (advances_componentChangeOf components) _ _ _ _ third
  obtain ⟨snapshot, s₄, h₄, built⟩ : ∃ snapshot s₄, (s₄.stem = s₃.stem ∧ s₃.next ≤ s₄.next) ∧
      (do
        let workspace ← Fresh.id
        return (⟨f.kind, f.name, workspace, snapshot, components, pending, changes, 0⟩ : Source)) s₄ =
        .ok (s, ids') := by
    split at built
    · obtain ⟨snapshot, s₄, drawn, built⟩ := Fresh.bind_eq_ok.1 built
      exact ⟨snapshot, s₄, (Fresh.advances_id.bind fun _ => Fresh.advances_pure _) _ _ _ drawn, built⟩
    · exact ⟨none, s₃, ⟨rfl, Nat.le_refl _⟩, built⟩
  obtain ⟨workspace, s₅, drawn, built⟩ := Fresh.bind_eq_ok.1 built
  cases built
  obtain ⟨n, named, le, lt⟩ := IdSupply.draw_next s₄
  have stem : s₄.stem = ids.stem := h₄.1.trans (h₃.1.trans (h₂.1.trans h₁.1))
  cases drawn
  refine ⟨rfl, stem, n, ?_, ?_, lt⟩
  · rw [← stem]
    exact named
  · have := h₁.2
    have := h₂.2
    have := h₃.2
    have := h₄.2
    omega

end Source

/-! ## Repositories -/

namespace Repository

def DistinctWorkspaces (r : Repository) : Prop := (r.sources.map (·.workspace)).Nodup

theorem distinct_of_mapM {now : Timestamp} {fixtures : List SourceFixture} {ids ids' : IdSupply}
    {sources : List Source} (built : fixtures.mapM (Source.ofFixture now) ids = .ok (sources, ids')) :
    (sources.map (·.workspace)).Nodup ∧ (∀ s ∈ sources, s.baselines = 0) ∧
      ∀ s ∈ sources, ∃ n, s.workspace = IdSupply.idAt ids.stem n ∧ ids.next ≤ n := by
  induction fixtures generalizing ids sources with
  | nil =>
    cases built
    simp
  | cons f rest ih =>
    rw [List.mapM_cons] at built
    obtain ⟨s, mid, first, built⟩ := Fresh.bind_eq_ok.1 built
    obtain ⟨others, last, later, built⟩ := Fresh.bind_eq_ok.1 built
    cases built
    obtain ⟨fresh, stem, n, named, le, lt⟩ := Source.ofFixture_eq_ok first
    obtain ⟨nodup, unmade, numbered⟩ := ih later
    refine ⟨?_, ?_, ?_⟩
    · rw [List.map_cons, List.nodup_cons]
      refine ⟨fun twice => ?_, nodup⟩
      obtain ⟨t, ht, same⟩ := List.mem_map.1 twice
      obtain ⟨k, hk, above⟩ := numbered t ht
      -- a later source draws its workspace from behind this one
      have drawn : IdSupply.idAt ids.stem k = IdSupply.idAt ids.stem n := by rw [← named, ← same, hk, stem]
      have : k = n := IdSupply.idAt_inj drawn
      omega
    · intro t ht
      rcases List.mem_cons.1 ht with rfl | ht
      · exact fresh
      · exact unmade t ht
    · intro t ht
      rcases List.mem_cons.1 ht with rfl | ht
      · exact ⟨n, named, le⟩
      · obtain ⟨k, hk, above⟩ := numbered t ht
        exact ⟨k, by rw [hk, stem], by omega⟩

theorem ofFixture_sources {now : Timestamp} {ids : IdSupply} {f : RepositoryFixture} {r : Repository}
    (built : ofFixture now ids f = .ok r) :
    ∃ ids', f.sources.mapM (Source.ofFixture now) (ids.without f.ids) = .ok (r.sources, ids') := by
  unfold ofFixture at built
  cases h : f.sources.mapM (Source.ofFixture now) (ids.without f.ids) with
  | error e =>
    rw [StateT.run, h] at built
    cases built
  | ok p =>
    rw [StateT.run, h] at built
    cases built
    exact ⟨p.2, rfl⟩

theorem ofFixture_distinctWorkspaces {now : Timestamp} {ids : IdSupply} {f : RepositoryFixture} {r : Repository}
    (built : ofFixture now ids f = .ok r) : r.DistinctWorkspaces := by
  obtain ⟨ids', made⟩ := ofFixture_sources built
  exact (distinct_of_mapM made).1

theorem ofFixture_baselines {now : Timestamp} {ids : IdSupply} {f : RepositoryFixture} {r : Repository}
    (built : ofFixture now ids f = .ok r) : ∀ s ∈ r.sources, s.baselines = 0 := by
  obtain ⟨ids', made⟩ := ofFixture_sources built
  exact (distinct_of_mapM made).2.1

end Repository

end SandboxFetch
