/-
  SandboxFetch.Proofs.Repository.Ledger — no pending change set is lost or accepted twice.

  A `Ledger` is the account of one source over a history. It deals the change sets that were pending
  at the start out to the accepts, each to at most one (`Deal`): what went to nobody is still
  pending, what went to an accept is what that accept answered with, and both keep the order of the
  start. One accept adds one record to the ledger of its source (`Ledger.accept`), every other
  step leaves all ledgers as they are (`Ledgers.keep`), and so each source has its ledger after any
  history (`ledgers_of_serve`).

  What one request does to the sources is told by its answer alone (`Accounts`). Workspaces name
  sources, since no two sources of a fixture have one workspace.
-/

import Mathlib.Data.List.Nodup
import SandboxFetch.Proofs.Repository.Deal
import SandboxFetch.Proofs.Repository.History
import SandboxFetch.Proofs.Timestamp.Text

namespace SandboxFetch

/-! ## Ledgers -/

theorem getElem?_concat_eq_some {α : Type} {xs : List α} {x a : α} {k : Nat} (h : (xs ++ [x])[k]? = some a) :
    (k < xs.length ∧ xs[k]? = some a) ∨ (k = xs.length ∧ a = x) := by
  rw [List.getElem?_append] at h
  split at h
  · next lt => exact .inl ⟨lt, h⟩
  · next ge =>
    obtain ⟨lt, rfl⟩ := List.getElem?_eq_some_iff.1 h
    simp only [List.length_singleton] at lt
    refine .inr ⟨by omega, ?_⟩
    rw [List.getElem_singleton]

/-- The account of a source that began as `start` and saw some accepts since, in order. -/
structure Ledger (start now : Source) (accepts : List AcceptRecord) : Prop where
  kept : now = { start with
    pending := now.pending, componentChanges := now.componentChanges, baselines := now.baselines }
  /-- Every change set went to one accept or to none, in the order of the start. -/
  dealt : ∃ d : Deal, d.map (·.1) = start.pending ∧ d.Below accepts.length ∧ now.pending = d.left ∧
    ∀ k a, accepts[k]? = some a → a.outcome.accepted = d.dealtTo k ∧ a.outcome.discarded = d.leftAfter k
  /-- An accept takes all that is pending for the components it was asked for, and nothing else. -/
  sorted : ∀ a ∈ accepts, (∀ c ∈ a.outcome.accepted, c.component.id ∈ a.components) ∧
    ∀ c ∈ a.outcome.discarded, c.component.id ∉ a.components
  /-- The first accept reports all component changes, and no later one reports any. -/
  joined : accepts.map (·.outcome.componentChanges) ++ [now.componentChanges] =
    start.componentChanges :: List.replicate accepts.length []
  counted : now.baselines = if start.makesBaselines then UInt32.ofNat accepts.length else 0
  numbered : start.kind ≠ .snapshot → ∀ k a, accepts[k]? = some a → k + 1 < UInt32.size →
    ∃ id, a.outcome.baseline = some ⟨id, start.name ++ " build #" ++ Text.writeNat (k + 1)⟩
  unnumbered : start.kind = .snapshot → ∀ a ∈ accepts, a.outcome.baseline = none

namespace Ledger

variable {start now : Source} {accepts : List AcceptRecord}

/-- The ledger of a source that made no baseline yet. -/
theorem init (s : Source) (h : s.baselines = 0) : Ledger s s [] where
  kept := rfl
  dealt := by
    refine ⟨s.pending.map fun c => (c, none), ?_, ?_, ?_, ?_⟩
    · simp [Function.comp_def]
    · intro e he k hk
      obtain ⟨c, -, rfl⟩ := List.mem_map.1 he
      cases hk
    · simp [Deal.left, List.filter_map, Function.comp_def]
    · intro k a ha
      cases ha
  sorted := by simp
  joined := rfl
  counted := by simp [h]
  numbered := by simp
  unnumbered := by simp

/-- One accept adds its record to the ledger. -/
theorem accept (l : Ledger start now accepts) (ids : List ItemId) (baselineId : ItemId) :
    Ledger start (now.accept ids baselineId).2 (accepts ++ [⟨ids, (now.accept ids baselineId).1⟩]) := by
  obtain ⟨outcome, after⟩ := Repository.accept_fields now ids baselineId
  have makes : now.makesBaselines = start.makesBaselines := by rw [l.kept]; rfl
  have name : now.name = start.name := by rw [l.kept]
  rw [outcome, after]
  refine ⟨?_, ?_, ?_, ?_, ?_, ?_, ?_⟩
  · rw [l.kept]
  -- the deal goes on: earlier accepts keep what they took, the new one takes from what was left
  · obtain ⟨d, all, below, left, each⟩ := l.dealt
    refine ⟨d.take accepts.length ids, ?_, ?_, ?_, ?_⟩
    · rw [Deal.map_fst_take, all]
    · rw [List.length_append]
      exact Deal.below_take below
    · rw [Deal.left_take, ← left]
    · intro k a ha
      rcases getElem?_concat_eq_some ha with ⟨lt, old⟩ | ⟨rfl, rfl⟩
      · obtain ⟨took, rest⟩ := each k a old
        rw [Deal.dealtTo_take_of_lt lt, Deal.leftAfter_take_of_lt lt]
        exact ⟨took, rest⟩
      · rw [Deal.dealtTo_take_self below, Deal.leftAfter_take_self below, ← left]
        exact ⟨rfl, rfl⟩
  · intro a ha
    rcases List.mem_append.1 ha with old | new
    · exact l.sorted a old
    · obtain rfl := List.mem_singleton.1 new
      constructor <;> intro c hc <;> simpa using (List.mem_filter.1 hc).2
  · have shown : accepts.map (·.outcome.componentChanges) ++ [now.componentChanges] ++ [[]] =
        start.componentChanges :: List.replicate accepts.length [] ++ [[]] := by rw [l.joined]
    simpa [List.replicate_succ'] using shown
  · simp only [makes, l.counted]
    cases start.makesBaselines with
    | false => rfl
    | true =>
      show UInt32.ofNat accepts.length + 1 = UInt32.ofNat (accepts ++ [_]).length
      rw [List.length_append, UInt32.ofNat_add]
      rfl
  -- the counter and the number of accepts agree as long as 32 bits hold them
  · intro kind k a ha small
    rcases getElem?_concat_eq_some ha with ⟨-, old⟩ | ⟨rfl, rfl⟩
    · exact l.numbered kind k a old small
    · have : start.makesBaselines = true := by simpa [Source.makesBaselines] using kind
      refine ⟨baselineId, ?_⟩
      simp only [makes, this, if_true, Source.baselineName, name, l.counted]
      have number : (UInt32.ofNat accepts.length + 1).toNat = accepts.length + 1 := by
        have : UInt32.ofNat accepts.length + 1 = UInt32.ofNat (accepts.length + 1) := (UInt32.ofNat_add ..).symm
        rw [this, UInt32.toNat_ofNat_of_lt' small]
      rw [number]
  · intro kind a ha
    rcases List.mem_append.1 ha with old | new
    · exact l.unnumbered kind a old
    · obtain rfl := List.mem_singleton.1 new
      have : start.makesBaselines = false := by simp [Source.makesBaselines, kind]
      simp only [makes, this]
      rfl

theorem workspace_eq (l : Ledger start now accepts) : now.workspace = start.workspace := by
  rw [l.kept]

end Ledger

/-! ## Steps -/

namespace Repository

theorem sourceOf_eq_ok {r : Repository} {h : SourceHandle} {s : Source} (found : r.sourceOf h = .ok s) :
    s ∈ r.sources ∧ s.workspace = h.workspace := by
  unfold sourceOf at found
  split at found
  · next t ht =>
    cases found
    exact ⟨List.mem_of_find?_eq_some ht, by simpa using List.find?_some ht⟩
  · cases found

/-- A workspace belongs to one source. -/
theorem DistinctWorkspaces.eq_of_workspace {r : Repository} (distinct : r.DistinctWorkspaces) {s t : Source}
    (hs : s ∈ r.sources) (ht : t ∈ r.sources) (same : s.workspace = t.workspace) : s = t :=
  List.inj_on_of_nodup_map distinct hs ht same

end Repository

/-- An accept that succeeded acts on the source of its workspace, and on no other. -/
theorem Call.accept_eq_ok {h : SourceHandle} {ids : List ItemId} {site site' : Site} {reply : Reply}
    (distinct : site.server.DistinctWorkspaces) (done : (Call.accept h ids).perform site = (.ok reply, site')) :
    ∃ baselineId, ∃ s ∈ site.server.sources, s.workspace = h.workspace ∧
      reply = .accepted (s.accept ids baselineId).1 ∧
      site'.server.sources = site.server.sources.map fun t =>
        if t.workspace = h.workspace then (t.accept ids baselineId).2 else t := by
  obtain ⟨o, performed, rfl⟩ := map_eq_ok.1 done
  obtain ⟨server, accepted, rfl⟩ := Site.onServer_eq.1 performed
  obtain ⟨s, found, rfl, sources⟩ := Repository.accept_eq_ok accepted
  obtain ⟨hs, workspace⟩ := Repository.sourceOf_eq_ok found
  refine ⟨_, s, hs, workspace, rfl, ?_⟩
  rw [sources]
  refine List.map_congr_left fun t ht => ?_
  by_cases same : t.workspace = h.workspace
  · obtain rfl := distinct.eq_of_workspace hs ht (workspace.trans same.symm)
    simp [same]
  · simp [same]

/-- An operation that failed leaves all sources as they were. -/
theorem Call.keeps_sources_of_error {call : Call} {site site' : Site} {e : RepositoryError}
    (failed : call.perform site = (.error e, site')) : site'.server.sources = site.server.sources := by
  cases kind : call.isAccept with
  | false => exact (Call.keeps_sources kind).of_eq failed
  | true =>
    cases call with
    | accept h ids =>
      obtain ⟨server, accepted, rfl⟩ := Site.onServer_eq.1 (map_eq_error.1 failed)
      exact Repository.accept_keeps_of_error accepted
    | _ => cases kind

/-- What an answer says of the sources before and after it. -/
def Accounts (before after : List Source) : Request × Except RepositoryError Reply → Prop
  | (⟨_, .accept h ids⟩, .ok (.accepted o)) =>
    ∃ s ∈ before, s.workspace = h.workspace ∧
      o.accepted = (s.pending.filter fun c => c.component.id ∈ ids) ∧
      o.discarded = (s.pending.filter fun c => c.component.id ∉ ids) ∧
      ∃ s', s'.workspace = s.workspace ∧ s'.pending = o.discarded ∧
        after = before.map fun t => if t.workspace = h.workspace then s' else t
  | _ => after = before

theorem accounts_perform {site site' : Site} {q : Request} {answer : Except RepositoryError Reply}
    (distinct : site.server.DistinctWorkspaces) (done : q.call.perform site = (answer, site')) :
    Accounts site.server.sources site'.server.sources (q, answer) := by
  rcases q with ⟨client, call⟩
  cases answer with
  | error e =>
    have kept := Call.keeps_sources_of_error done
    cases call <;> exact kept
  | ok reply =>
    -- only an accept changes a source
    cases kind : call.isAccept with
    | false =>
      have kept := (Call.keeps_sources kind).of_eq done
      cases call with
      | accept h ids => cases kind
      | _ => exact kept
    | true =>
      cases call with
      | accept h ids =>
        obtain ⟨baselineId, s, hs, workspace, rfl, after⟩ := Call.accept_eq_ok distinct done
        obtain ⟨outcome, next⟩ := Repository.accept_fields s ids baselineId
        refine ⟨s, hs, workspace, ?_, ?_, (s.accept ids baselineId).2, ?_, ?_, ?_⟩
        · rw [outcome]
          exact List.filter_congr fun c _ => by simp
        · rw [outcome]
          exact List.filter_congr fun c _ => by simp
        · rw [next]
        · rw [outcome, next]
        · rw [after]
          refine List.map_congr_left fun t ht => ?_
          by_cases same : t.workspace = h.workspace
          · obtain rfl := distinct.eq_of_workspace hs ht (workspace.trans same.symm)
            rfl
          · simp [same]
      | _ => cases kind

/-! ## Histories -/

structure Ledgers (start : List Source) (log : List (Request × Except RepositoryError Reply)) (server : Repository) :
    Prop where
  distinct : server.DistinctWorkspaces
  ledgers : List.Forall₂ (fun s now => Ledger s now (acceptsInto s.workspace log)) start server.sources

namespace Ledgers

variable {start : List Source} {log : List (Request × Except RepositoryError Reply)}

theorem init {r : Repository} (distinct : r.DistinctWorkspaces) (new : ∀ s ∈ r.sources, s.baselines = 0) :
    Ledgers r.sources [] r :=
  ⟨distinct, List.forall₂_same.2 fun s hs => .init s (new s hs)⟩

/-- An answer that is no successful accept changes no ledger. -/
theorem keep {r r' : Repository} {q : Request} {answer : Except RepositoryError Reply} (l : Ledgers start log r)
    (kept : r'.sources = r.sources) (none : ∀ workspace, AcceptRecord.of? workspace (q, answer) = none) :
    Ledgers start (log ++ [(q, answer)]) r' := by
  constructor
  · have := l.distinct
    unfold Repository.DistinctWorkspaces at *
    rwa [kept]
  · have same : ∀ workspace, acceptsInto workspace (log ++ [(q, answer)]) = acceptsInto workspace log := by
      intro workspace
      rw [acceptsInto_append]
      simp [acceptsInto, none]
    simpa only [same, kept] using l.ledgers

/-- A successful accept adds its record to the ledger of its workspace. -/
theorem accept {r r' : Repository} {client : Nat} {h : SourceHandle} {ids : List ItemId} {baselineId : ItemId}
    {s : Source} (l : Ledgers start log r) (hs : s ∈ r.sources) (workspace : s.workspace = h.workspace)
    (after : r'.sources = r.sources.map fun t =>
      if t.workspace = h.workspace then (t.accept ids baselineId).2 else t) :
    Ledgers start (log ++ [(⟨client, .accept h ids⟩, .ok (.accepted (s.accept ids baselineId).1))]) r' := by
  have kept : ∀ t : Source, (t.accept ids baselineId).2.workspace = t.workspace := by
    intro t
    rw [(Repository.accept_fields t ids baselineId).2]
  constructor
  · have workspaces : r'.sources.map (·.workspace) = r.sources.map (·.workspace) := by
      rw [after, List.map_map]
      refine List.map_congr_left fun t _ => ?_
      simp only [Function.comp]
      split
      · exact kept t
      · rfl
    unfold Repository.DistinctWorkspaces
    rw [workspaces]
    exact l.distinct
  · rw [after, List.forall₂_map_right_iff]
    refine List.forall₂_iff_zip.2 ⟨l.ledgers.length_eq, fun {first now} paired => ?_⟩
    have ledger := (List.forall₂_iff_zip.1 l.ledgers).2 paired
    have named : now.workspace = first.workspace := ledger.workspace_eq
    rw [acceptsInto_append]
    -- the record belongs to the history of the one source that has the workspace
    by_cases same : now.workspace = h.workspace
    · obtain rfl := l.distinct.eq_of_workspace hs (List.of_mem_zip paired).2 (workspace.trans same.symm)
      have record : acceptsInto first.workspace
          [(⟨client, .accept h ids⟩, .ok (.accepted (s.accept ids baselineId).1))] =
            [⟨ids, (s.accept ids baselineId).1⟩] := by
        simp [acceptsInto, AcceptRecord.of?, ← named, same]
      rw [record, if_pos same]
      exact ledger.accept ids baselineId
    · have record : acceptsInto first.workspace
          [(⟨client, .accept h ids⟩, .ok (.accepted (s.accept ids baselineId).1))] = [] := by
        have : ¬ h.workspace = first.workspace := fun e => same (named.trans e.symm)
        simp [acceptsInto, AcceptRecord.of?, this]
      rw [record, if_neg same, List.append_nil]
      exact ledger

/-- One request more. -/
theorem perform {site site' : Site} {q : Request} {answer : Except RepositoryError Reply}
    (l : Ledgers start log site.server) (done : q.call.perform site = (answer, site')) :
    Ledgers start (log ++ [(q, answer)]) site'.server := by
  rcases q with ⟨client, call⟩
  cases answer with
  | error e =>
    refine l.keep (Call.keeps_sources_of_error done) fun workspace => ?_
    cases call <;> rfl
  | ok reply =>
    cases kind : call.isAccept with
    | false =>
      refine l.keep ((Call.keeps_sources kind).of_eq done) fun workspace => ?_
      cases call with
      | accept h ids => cases kind
      | _ => rfl
    | true =>
      cases call with
      | accept h ids =>
        obtain ⟨baselineId, s, hs, workspace, rfl, after⟩ := Call.accept_eq_ok l.distinct done
        exact l.accept hs workspace after
      | _ => cases kind

theorem serve (site : Site) (l : Ledgers start log site.server) (history : List Request) :
    Ledgers start (log ++ (SandboxFetch.serve site history).1) (SandboxFetch.serve site history).2.server := by
  induction history generalizing log site with
  | nil => simpa [SandboxFetch.serve] using l
  | cons q rest ih =>
    have one := l.perform (q := q) (Prod.eta (q.call.perform site)).symm
    simpa [SandboxFetch.serve] using ih _ one

end Ledgers

/-- A handle means one source, whatever was asked of the server before. -/
theorem Repository.Reachable.distinctWorkspaces {r : Repository} (reachable : r.Reachable) :
    r.DistinctWorkspaces := by
  obtain ⟨now, ids, fixture, start, disk, history, built, rfl⟩ := reachable
  have init := Ledgers.init (ofFixture_distinctWorkspaces built) (ofFixture_baselines built)
  exact (Ledgers.serve { server := start, disk } init history).distinct

/-- After any history, each source of the fixture has its ledger, and what is asked next is accounted for. -/
theorem ledgers_of_serve {now : Timestamp} {ids : IdSupply} {fixture : RepositoryFixture} {start : Repository}
    (built : Repository.ofFixture now ids fixture = .ok start) (disk : Disk) (history : List Request) :
    List.Forall₂ (fun first last => Ledger first last
        (acceptsInto first.workspace (serve { server := start, disk } history).1))
      start.sources (serve { server := start, disk } history).2.server.sources ∧
    ∀ next : Request,
      Accounts (serve { server := start, disk } history).2.server.sources
        (next.call.perform (serve { server := start, disk } history).2).2.server.sources
        (next, (next.call.perform (serve { server := start, disk } history).2).1) := by
  have l : Ledgers start.sources (serve { server := start, disk } history).1
      (serve { server := start, disk } history).2.server := by
    have init := Ledgers.init (Repository.ofFixture_distinctWorkspaces built) (Repository.ofFixture_baselines built)
    exact Ledgers.serve { server := start, disk } init history
  refine ⟨l.ledgers, fun next => ?_⟩
  exact accounts_perform l.distinct (Prod.eta _).symm

/-- A stream with two components, and a change set that waits for each. -/
def twoPending : RepositoryFixture where
  version := ⟨[6, 0, 6]⟩
  sources := [{
    kind := .stream
    name := "main"
    components := [⟨some "_core", "core", ∅⟩, ⟨some "_docs", "docs", ∅⟩]
    pending := [⟨"core", some "_1", none, none, [], []⟩, ⟨"docs", some "_2", none, none, [], []⟩]
    componentChanges := [⟨"docs", .add⟩] }]

/-- Two clients accept one component each, the second one only after a failure. -/
def takingTurns (workspace : ItemId) : List Request :=
  let main : SourceHandle := ⟨⟨.stream, "main"⟩, workspace, none⟩
  let gone : SourceHandle := ⟨⟨.stream, "main"⟩, "_gone", none⟩
  [⟨1, .accept main ["_core"]⟩, ⟨2, .accept gone ["_docs"]⟩, ⟨2, .accept main ["_docs"]⟩]

theorem ledgers_of_serve_takingTurns : ∃ start, Repository.ofFixture noonOfMay ⟨[], 0, []⟩ twoPending = .ok start ∧
    (acceptsInto "000000000000" (serve { server := start } (takingTurns "000000000000")).1).map
      (fun a => a.outcome.accepted.map (·.id)) = [["_1"], ["_2"]] ∧
    List.Forall₂ (fun first last => Ledger first last
        (acceptsInto first.workspace (serve { server := start } (takingTurns "000000000000")).1))
      start.sources (serve { server := start } (takingTurns "000000000000")).2.server.sources := by
  have ok : (Repository.ofFixture noonOfMay ⟨[], 0, []⟩ twoPending).map (fun start =>
      (acceptsInto "000000000000" (serve { server := start } (takingTurns "000000000000")).1).map
        fun a => a.outcome.accepted.map (·.id)) = .ok [["_1"], ["_2"]] := by decide +kernel
  cases built : Repository.ofFixture noonOfMay ⟨[], 0, []⟩ twoPending with
  | error e =>
    rw [built] at ok
    cases ok
  | ok start =>
    rw [built] at ok
    refine ⟨start, rfl, Except.ok.inj ok, (ledgers_of_serve built {} (takingTurns "000000000000")).1⟩

end SandboxFetch
