/-
  SandboxFetch.Proofs.Repository.Naming — the ids that a server gives out are no empty texts.

  An id that is drawn ends with a number of twelve digits (`draw_ne_empty`). A source that is built draws
  the ids of its workspace and of its snapshot (`ofFixture_hasIds`), and no operation gives it others
  (`Reachable.hasIds`).
-/

import SandboxFetch.Proofs.Repository.Ledger
import SandboxFetch.Proofs.Results
import SandboxFetch.Proofs.Text.Numeral

namespace SandboxFetch

theorem IdSupply.draw_ne_empty (s : IdSupply) : s.draw.1 ≠ "" := by
  obtain ⟨n, drawn, -⟩ := s.draw_next
  obtain ⟨d, ds, digits, -⟩ := Text.exists_padded 12 n
  rw [drawn, idAt, ← String.toList_inj.ne, String.toList_ofList, digits]
  simp

namespace Fresh

variable {α β : Type}

/-- What each element comes to, all elements come to. -/
theorem forall_of_mapM {f : α → Fresh β} {p : β → Prop} (each : ∀ a s b s', f a s = .ok (b, s') → p b) {l : List α}
    {s s' : IdSupply} {bs : List β} (made : l.mapM f s = .ok (bs, s')) : ∀ b ∈ bs, p b := by
  induction l generalizing s bs with
  | nil =>
    cases made
    simp
  | cons a rest ih =>
    rw [List.mapM_cons] at made
    obtain ⟨b, mid, first, made⟩ := bind_eq_ok.1 made
    obtain ⟨others, last, later, made⟩ := bind_eq_ok.1 made
    cases made
    exact List.forall_mem_cons.2 ⟨each _ _ _ _ first, ih later⟩

end Fresh

structure Source.HasIds (s : Source) : Prop where
  workspace : s.workspace ≠ ""
  snapshot : s.snapshot ≠ some ""

theorem Source.ofFixture_hasIds {now : Timestamp} {f : SourceFixture} {ids ids' : IdSupply} {s : Source}
    (built : ofFixture now f ids = .ok (s, ids')) : s.HasIds := by
  unfold ofFixture at built
  obtain ⟨components, s₁, -, built⟩ := Fresh.bind_eq_ok.1 built
  obtain ⟨pending, s₂, -, built⟩ := Fresh.bind_eq_ok.1 built
  obtain ⟨changes, s₃, -, built⟩ := Fresh.bind_eq_ok.1 built
  split at built
  · obtain ⟨snapshot, s₄, taken, built⟩ := Fresh.bind_eq_ok.1 built
    obtain ⟨workspace, s₅, drawn, built⟩ := Fresh.bind_eq_ok.1 built
    cases taken
    cases drawn
    cases built
    exact ⟨IdSupply.draw_ne_empty _, fun none => IdSupply.draw_ne_empty _ (Option.some.inj none)⟩
  · obtain ⟨snapshot, s₄, untaken, built⟩ := Fresh.bind_eq_ok.1 built
    obtain ⟨workspace, s₅, drawn, built⟩ := Fresh.bind_eq_ok.1 built
    cases untaken
    cases drawn
    cases built
    exact ⟨IdSupply.draw_ne_empty _, nofun⟩

/-- Accepting gives a source no other ids. -/
theorem Ledger.hasIds {start now : Source} {accepts : List AcceptRecord} (l : Ledger start now accepts)
    (h : start.HasIds) : now.HasIds := by
  rw [l.kept]
  exact ⟨h.workspace, h.snapshot⟩

/-- Whatever was asked of a server before, its sources have the ids that they were built with. -/
theorem Repository.Reachable.hasIds {r : Repository} (reachable : r.Reachable) : ∀ s ∈ r.sources, s.HasIds := by
  obtain ⟨now, ids, fixture, start, disk, history, built, rfl⟩ := reachable
  obtain ⟨ids', made⟩ := ofFixture_sources built
  intro s member
  obtain ⟨first, there, ledger⟩ := exists_of_mem_right (ledgers_of_serve built disk history).1 member
  exact ledger.hasIds (Fresh.forall_of_mapM (fun _ _ _ _ => Source.ofFixture_hasIds) made first there)

end SandboxFetch
