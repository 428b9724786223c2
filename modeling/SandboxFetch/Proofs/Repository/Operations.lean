/-
  SandboxFetch.Proofs.Repository.Operations — what each operation of a server does to its sources.

  Only an accept changes a source (`accept_eq_ok`), and only the one whose workspace its handle
  names. An accept that fails leaves all sources as they were (`accept_keeps_of_error`); every other
  operation does so whatever comes of it.
-/

import SandboxFetch.Proofs.Steps

namespace SandboxFetch.Repository

/-! ## Entering an operation -/

def logged (r : Repository) (operation : Operation) (source : String) : Repository :=
  { r with calls := r.calls ++ [(operation, source)] }

@[simp] theorem logged_sources (r : Repository) (operation : Operation) (source : String) :
    (r.logged operation source).sources = r.sources := rfl

@[simp] theorem sourceOf_logged (r : Repository) (operation : Operation) (source : String) (h : SourceHandle) :
    (r.logged operation source).sourceOf h = r.sourceOf h := rfl

theorem enter_apply (operation : Operation) (source : String) (r : Repository) :
    enter operation source r = (if r.failing.contains operation.key then
      .error (.operationFailed operation .injected) else .ok (), r.logged operation source) := by
  unfold enter
  rw [bind_apply, modify_apply]
  show ((get : RepositoryM Repository) >>= _) (r.logged operation source) = _
  rw [bind_apply, get_apply]
  by_cases hf : r.failing.contains operation.key = true
  · have hl : (r.logged operation source).failing.contains operation.key = true := hf
    simp only [hf, hl, if_true]
    rfl
  · have hl : ¬ (r.logged operation source).failing.contains operation.key = true := hf
    simp only [hf, hl]
    rfl

theorem enter_eq_ok {operation : Operation} {source : String} {r r' : Repository}
    (h : enter operation source r = (.ok (), r')) : r' = r.logged operation source := by
  rw [enter_apply] at h
  exact (Prod.mk.inj h).2.symm

theorem enter_keeps_sources (operation : Operation) (source : String) :
    Keeps (·.sources) (enter operation source) := by
  intro r
  rw [enter_apply]
  rfl

/-! ## Operations that keep the sources -/

theorem testConnection_keeps_sources : Keeps (·.sources) testConnection :=
  .bind (enter_keeps_sources _ _) fun _ => .bind .get fun _ => .pure _

theorem resolveSource_keeps_sources (selection : Selection) : Keeps (·.sources) (resolveSource selection) := by
  refine .bind (enter_keeps_sources _ _) fun _ => .bind .get fun r => ?_
  split
  · exact .pure _
  · exact .throw _

theorem listComponents_keeps_sources (h : SourceHandle) : Keeps (·.sources) (listComponents h) :=
  .bind (enter_keeps_sources _ _) fun _ => .bind .get fun _ => .bind (.lift _) fun _ => .pure _

theorem contentOf_keeps_sources (h : SourceHandle) (component : ItemId) (path : String) :
    Keeps (·.sources) (contentOf h component path) :=
  .bind (enter_keeps_sources _ _) fun _ => .bind .get fun _ => .bind (.lift _) fun _ => .lift _

theorem filesFor_keeps_sources (h : SourceHandle) (request : LoadRequest) :
    Keeps (·.sources) (filesFor h request) :=
  .bind (enter_keeps_sources _ _) fun _ => .bind .get fun _ => .bind (.lift _) fun _ => .lift _

/-! ## Accepting -/

/-- The server after an accept: its source is in its next state, and an id was drawn. -/
theorem after_accept {h : SourceHandle} {ids : List ItemId} {r r' : Repository} {o : AcceptOutcome}
    (done : accept h ids r = (.ok o, r')) :
    ∃ s, r.sourceOf h = .ok s ∧ o = (s.accept ids r.ids.draw.1).1 ∧
      r' = { (r.logged .accept h.selection.name).update h.workspace (s.accept ids r.ids.draw.1).2 with
        ids := r.ids.draw.2 } := by
  unfold accept at done
  obtain ⟨⟨⟩, mid, entered, done⟩ := bind_eq_ok.1 done
  obtain rfl := enter_eq_ok entered
  rw [get_bind_apply] at done
  obtain ⟨s, mid, found, done⟩ := bind_eq_ok.1 done
  rw [lift_apply, sourceOf_logged] at found
  obtain ⟨hs, rfl⟩ := Prod.mk.inj found
  cases done
  exact ⟨s, hs, rfl, rfl⟩

theorem accept_eq_ok {h : SourceHandle} {ids : List ItemId} {r r' : Repository} {o : AcceptOutcome}
    (done : accept h ids r = (.ok o, r')) :
    ∃ s, r.sourceOf h = .ok s ∧ o = (s.accept ids r.ids.draw.1).1 ∧
      r'.sources = (r.update h.workspace (s.accept ids r.ids.draw.1).2).sources := by
  obtain ⟨s, owner, outcome, rfl⟩ := after_accept done
  exact ⟨s, owner, outcome, rfl⟩

/-- A failed accept leaves all sources as they were. -/
theorem accept_keeps_of_error {h : SourceHandle} {ids : List ItemId} {r r' : Repository} {e : RepositoryError}
    (failed : accept h ids r = (.error e, r')) : r'.sources = r.sources := by
  unfold accept at failed
  rw [bind_apply, enter_apply] at failed
  cases hf : r.failing.contains Operation.accept.key with
  | true =>
    simp only [hf, if_true] at failed
    cases failed
    rfl
  | false =>
    simp only [hf, Bool.false_eq_true, if_false] at failed
    rw [get_bind_apply, bind_apply, lift_apply, sourceOf_logged] at failed
    cases hs : r.sourceOf h with
    | error e =>
      rw [hs] at failed
      cases failed
      rfl
    | ok s =>
      rw [hs] at failed
      simp only at failed
      rw [bind_apply, set_apply] at failed
      cases failed

/-- An accept takes the pending change sets of the listed components and leaves the others. -/
theorem accept_fields (s : Source) (ids : List ItemId) (baselineId : ItemId) :
    (s.accept ids baselineId).1 = {
      accepted := s.pending.filter fun c => ids.contains c.component.id
      discarded := s.pending.filter fun c => !ids.contains c.component.id
      componentChanges := s.componentChanges
      baseline := if s.makesBaselines then some ⟨baselineId, s.baselineName (s.baselines + 1)⟩ else none } ∧
    (s.accept ids baselineId).2 = { s with
      pending := s.pending.filter fun c => !ids.contains c.component.id
      componentChanges := []
      baselines := if s.makesBaselines then s.baselines + 1 else s.baselines } := by
  unfold Source.accept
  rw [List.partition_eq_filter_filter]
  exact ⟨rfl, rfl⟩

end SandboxFetch.Repository
