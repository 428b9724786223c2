/-
  SandboxFetch.Proofs.Repository.Lasting — what all operations of a server leave alone.

  An accept changes what is pending, the component changes and the count of baselines of its source,
  and an operation logs its call; all else of a server lasts (`Repository.lasting`). Every operation
  but an accept asks a question (`asking`): it logs its call, and its answer hangs on what lasts. So
  the answer is the same after any number of accepts, as long as each workspace has one source.
-/

import SandboxFetch.Proofs.Repository.Ledger

namespace SandboxFetch

variable {α : Type}

/-! ## What lasts -/

/-- A source without what an accept changes. -/
def Source.lasting (s : Source) : Source := { s with pending := [], componentChanges := [], baselines := 0 }

theorem Source.lasting_accept (s : Source) (ids : List ItemId) (baselineId : ItemId) :
    (s.accept ids baselineId).2.lasting = s.lasting := by
  rw [(Repository.accept_fields s ids baselineId).2]
  rfl

namespace Repository

variable {r r' : Repository} {h : SourceHandle} {s t : Source} {ids : List ItemId} {o : AcceptOutcome}

/-- A server without its log, its ids and what an accept changes. -/
def lasting (r : Repository) : ServerVersion × List String × List Source :=
  (r.version, r.failing, r.sources.map Source.lasting)

/-- The first source with a property that lasts is the same one in servers where the same lasts. -/
theorem find?_of_lasting (same : r'.lasting = r.lasting) {p : Source → Bool} (steady : ∀ s, p s.lasting = p s) :
    (r'.sources.find? p).map Source.lasting = (r.sources.find? p).map Source.lasting := by
  have sources : r'.sources.map Source.lasting = r.sources.map Source.lasting := congrArg (·.2.2) same
  have through : ∀ l : List Source, (l.map Source.lasting).find? p = (l.find? p).map Source.lasting := by
    intro l
    rw [List.find?_map]
    congr 2
    funext s
    exact steady s
  rw [← through, ← through, sources]

theorem sourceOf_of_lasting (same : r'.lasting = r.lasting) (h : SourceHandle) :
    (r'.sourceOf h).map Source.lasting = (r.sourceOf h).map Source.lasting := by
  have first := find?_of_lasting same (p := (·.workspace == h.workspace)) fun _ => rfl
  unfold sourceOf
  cases found : r.sources.find? (·.workspace == h.workspace) with
  | none =>
    rw [found, Option.map_none, Option.map_eq_none_iff] at first
    rw [first]
  | some s =>
    rw [found, Option.map_some, Option.map_eq_some_iff] at first
    obtain ⟨t, found', kept⟩ := first
    rw [found']
    exact congrArg Except.ok kept

/-! ## Questions -/

def asking (operation : Operation) (source : String) (answer : Repository → Except RepositoryError α) :
    RepositoryM α := do
  enter operation source
  liftM (answer (← get))

theorem asking_apply (operation : Operation) (source : String) (answer : Repository → Except RepositoryError α)
    (r : Repository) : asking operation source answer r =
      (if r.failing.contains operation.key then .error (.operationFailed operation .injected)
        else answer (r.logged operation source), r.logged operation source) := by
  unfold asking
  rw [bind_apply, enter_apply]
  cases fails : r.failing.contains operation.key with
  | true => rfl
  | false => exact lift_apply _ _

/-- The answer to a question hangs on what lasts, when it does not look at anything else. -/
theorem asks_asking {operation : Operation} {source : String} {answer : Repository → Except RepositoryError α}
    (steady : ∀ r r', r.lasting = r'.lasting → answer r = answer r') : Asks lasting (asking operation source answer) := by
  constructor
  · intro r
    rw [asking_apply]
    rfl
  · intro r r' same
    have failing : r.failing = r'.failing := congrArg (·.2.1) same
    rw [asking_apply, asking_apply, failing, steady (r.logged operation source) (r'.logged operation source) same]

theorem testConnection_eq : testConnection = asking .testConnection "server" fun r => .ok r.version := rfl

theorem resolveSource_eq (selection : Selection) : resolveSource selection =
    asking .resolveSource selection.name fun r =>
      ((r.sources.find? fun s => s.kind == selection.kind && s.name == selection.name).map fun s =>
        (⟨selection, s.workspace, s.snapshot⟩ : SourceHandle)).elim
          (.error (.sourceNotFound selection.kind selection.name)) .ok := by
  unfold resolveSource asking
  congr 1
  funext _
  congr 1
  funext r
  dsimp only
  cases r.sources.find? fun s => s.kind == selection.kind && s.name == selection.name <;> rfl

/-- A question about the source of a handle. -/
theorem lift_sourceOf_bind (h : SourceHandle) (answer : Source → Except RepositoryError α) (r : Repository) :
    (liftM (r.sourceOf h) >>= fun s => liftM (answer s) : RepositoryM α) = liftM ((r.sourceOf h).bind answer) := by
  cases r.sourceOf h with
  | error e => exact lift_error_bind _ _
  | ok s => exact lift_ok_bind _ _

theorem listComponents_eq (h : SourceHandle) : listComponents h =
    asking .listComponents h.selection.name fun r => (r.sourceOf h).bind fun s => .ok (s.components.map (·.component)) := by
  unfold asking
  simp only [← lift_sourceOf_bind]
  rfl

theorem contentOf_eq (h : SourceHandle) (component : ItemId) (path : String) : contentOf h component path =
    asking .readFile h.selection.name fun r => (r.sourceOf h).bind fun s => s.read component path := by
  unfold asking
  simp only [← lift_sourceOf_bind]
  rfl

theorem filesFor_eq (h : SourceHandle) (request : LoadRequest) : filesFor h request =
    asking .load h.selection.name fun r => (r.sourceOf h).bind fun s => s.filesFor request := by
  unfold asking
  simp only [← lift_sourceOf_bind]
  rfl

theorem asks_testConnection : Asks lasting testConnection := by
  rw [testConnection_eq]
  exact asks_asking fun r r' same => congrArg (fun l => Except.ok l.1) same

theorem asks_resolveSource (selection : Selection) : Asks lasting (resolveSource selection) := by
  rw [resolveSource_eq]
  refine asks_asking fun r r' same => ?_
  have first := find?_of_lasting same (p := fun s => s.kind == selection.kind && s.name == selection.name) fun _ => rfl
  have handles : ∀ found : Option Source, (found.map fun s => (⟨selection, s.workspace, s.snapshot⟩ : SourceHandle)) =
      (found.map Source.lasting).map fun s => ⟨selection, s.workspace, s.snapshot⟩ := by
    intro found
    rw [Option.map_map]
    rfl
  rw [handles (r.sources.find? _), first, ← handles]

/-- An answer about the source of a handle hangs on what lasts of it. -/
theorem answer_of_lasting {answer : Source → Except RepositoryError α} (steady : ∀ s, answer s.lasting = answer s)
    (same : r.lasting = r'.lasting) (h : SourceHandle) : (r.sourceOf h).bind answer = (r'.sourceOf h).bind answer := by
  have through : ∀ found : Except RepositoryError Source, (found.map Source.lasting).bind answer = found.bind answer := by
    intro found
    cases found with
    | error e => rfl
    | ok s => exact steady s
  rw [← through (r.sourceOf h), sourceOf_of_lasting same, through]

theorem asks_listComponents (h : SourceHandle) : Asks lasting (listComponents h) := by
  rw [listComponents_eq]
  exact asks_asking fun r r' same => answer_of_lasting (by exact fun _ => rfl) same h

theorem asks_contentOf (h : SourceHandle) (component : ItemId) (path : String) :
    Asks lasting (contentOf h component path) := by
  rw [contentOf_eq]
  exact asks_asking fun r r' same => answer_of_lasting (by exact fun _ => rfl) same h

theorem asks_filesFor (h : SourceHandle) (request : LoadRequest) : Asks lasting (filesFor h request) := by
  rw [filesFor_eq]
  exact asks_asking fun r r' same => answer_of_lasting (by exact fun _ => rfl) same h

/-! ## Accepting -/

theorem distinctWorkspaces_of_lasting (same : r'.lasting = r.lasting) (distinct : r.DistinctWorkspaces) :
    r'.DistinctWorkspaces := by
  have sources : r'.sources.map Source.lasting = r.sources.map Source.lasting := congrArg (·.2.2) same
  have workspaces : ∀ l : List Source, (l.map Source.lasting).map (·.workspace) = l.map (·.workspace) := by
    intro l
    rw [List.map_map]
    rfl
  unfold DistinctWorkspaces
  rw [← workspaces, sources, workspaces]
  exact distinct

/-- A source that was put in the place of another one with its workspace is found there. -/
theorem sourceOf_update (owner : r.sourceOf h = .ok s) (workspace : t.workspace = s.workspace) :
    (r.update h.workspace t).sourceOf h = .ok t := by
  obtain ⟨-, named⟩ := sourceOf_eq_ok owner
  have found : r.sources.find? (·.workspace == h.workspace) = some s := by
    unfold sourceOf at owner
    split at owner
    · cases owner
      assumption
    · cases owner
  have same : ((·.workspace == h.workspace) ∘ fun old : Source => if old.workspace == h.workspace then t else old) =
      (·.workspace == h.workspace) := by
    funext old
    show ((if old.workspace == h.workspace then t else old).workspace == h.workspace) = _
    split
    · next own => rw [own, workspace, named, beq_self_eq_true]
    · rfl
  unfold sourceOf
  rw [update, List.find?_map, same, found, Option.map_some, named, beq_self_eq_true, if_pos rfl]

/-- After an accept the source of its handle is in its next state. -/
theorem sourceOf_of_accept (done : accept h ids r = (.ok o, r')) :
    ∃ s, r.sourceOf h = .ok s ∧ o = (s.accept ids r.ids.draw.1).1 ∧
      r'.sourceOf h = .ok (s.accept ids r.ids.draw.1).2 := by
  obtain ⟨s, owner, outcome, rfl⟩ := after_accept done
  refine ⟨s, owner, outcome, sourceOf_update (r := r.logged .accept h.selection.name) owner ?_⟩
  rw [(accept_fields s ids _).2]

/-- An accept changes nothing that lasts. -/
theorem lasting_of_accept (distinct : r.DistinctWorkspaces) (done : accept h ids r = (.ok o, r')) :
    r'.lasting = r.lasting := by
  obtain ⟨s, owner, -, rfl⟩ := after_accept done
  obtain ⟨member, named⟩ := sourceOf_eq_ok owner
  have sources : (r.sources.map fun old => if old.workspace == h.workspace then (s.accept ids r.ids.draw.1).2 else old).map
      Source.lasting = r.sources.map Source.lasting := by
    rw [List.map_map]
    refine List.map_congr_left fun t there => ?_
    show Source.lasting (if t.workspace == h.workspace then _ else t) = _
    split
    · next own =>
      obtain rfl := distinct.eq_of_workspace member there (named.trans (eq_of_beq own).symm)
      exact Source.lasting_accept _ _ _
    · rfl
  exact congrArg (fun sources => (r.version, r.failing, sources)) sources

theorem works_of_accept (done : accept h ids r = (.ok o, r')) : r.failing.contains Operation.accept.key = false := by
  unfold accept at done
  obtain ⟨⟨⟩, mid, entered, -⟩ := bind_eq_ok.1 done
  rw [enter_apply] at entered
  cases fails : r.failing.contains Operation.accept.key with
  | false => rfl
  | true =>
    rw [fails] at entered
    cases entered

theorem accept_of_sourceOf (works : r.failing.contains Operation.accept.key = false) (owner : r.sourceOf h = .ok s)
    (ids : List ItemId) : accept h ids r = (.ok (s.accept ids r.ids.draw.1).1,
      { (r.logged .accept h.selection.name).update h.workspace (s.accept ids r.ids.draw.1).2 with
        ids := r.ids.draw.2 }) := by
  have entered : enter .accept h.selection.name r = (.ok (), r.logged .accept h.selection.name) := by
    rw [enter_apply, works]
    rfl
  unfold accept
  rw [bind_of_ok entered, get_bind_apply, sourceOf_logged, owner]
  rfl

/-- Whether an accept succeeds hangs on what lasts. -/
theorem accept_again {next : Repository} (same : r'.lasting = r.lasting) (done : accept h ids r = (.ok o, next)) :
    ∃ o' next', accept h ids r' = (.ok o', next') := by
  obtain ⟨s, owner, -, -⟩ := after_accept done
  have failing : r'.failing = r.failing := congrArg (·.2.1) same
  have found := sourceOf_of_lasting same h
  rw [owner] at found
  cases owner' : r'.sourceOf h with
  | error e =>
    rw [owner'] at found
    cases found
  | ok s' => exact ⟨_, _, accept_of_sourceOf (failing ▸ works_of_accept done) owner' ids⟩

end Repository

end SandboxFetch
