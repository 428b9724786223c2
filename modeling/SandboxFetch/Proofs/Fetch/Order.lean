/-
  SandboxFetch.Proofs.Fetch.Order — the order of the steps of a run, and where it stops.

  A run follows a script (`script`): it tests the connection, resolves the source, lists its
  components, reads the rule files, accepts when it is to, and loads. A computation that keeps to a
  script makes its calls in order; it has made all of them when it succeeds, and the first ones when
  it fails (`KeepsTo`). A chain keeps to the scripts of its parts one after the other
  (`KeepsTo.bind`), and so a run keeps to the whole of it.

  When a step fails, the run ends in the state that the step left, and no later step has left
  anything (`FailStop`). This goes for emptying too, which the machine can stop anywhere
  (`Hindrances`): what was taken away by then is gone, and nothing else has changed
  (`emptying_frame`).
-/

import SandboxFetch.Proofs.Fetch.Clearing
import SandboxFetch.Proofs.Fetch.Exactness

namespace SandboxFetch.Fetch

variable {ε ε' α β : Type}

/-! ## Scripts -/

abbrev LoggedCall := Operation × String

/-- The calls that resolving makes: there is one file to read for each rule file. -/
def resolvingScript (c : Configuration) : List LoggedCall :=
  [(.testConnection, "server"), (.resolveSource, c.selection.name), (.listComponents, c.selection.name)] ++
    c.ruleFiles.map fun _ => (.readFile, c.selection.name)

theorem resolvingScript_eq (c : Configuration) : resolvingScript c =
    [(.testConnection, "server")] ++ ([(.resolveSource, c.selection.name)] ++ ([(.listComponents, c.selection.name)] ++
      c.ruleFiles.map fun _ => (.readFile, c.selection.name))) := rfl

def acceptingScript (c : Configuration) : List LoggedCall :=
  if c.acceptFirst then [(.accept, c.selection.name)] else []

def script (c : Configuration) : List LoggedCall :=
  resolvingScript c ++ acceptingScript c ++ [(.load, c.selection.name)]

/-- A computation makes the calls of a script in order. When it succeeds it has made all of them, and
    its result has a property. -/
def KeepsTo (calls : List LoggedCall) (p : α → Prop) (x : SiteM ε α) : Prop :=
  ∀ site, ∃ made, made <+: calls ∧ (x site).2.server.calls = site.server.calls ++ made ∧
    ∀ a, (x site).1 = .ok a → made = calls ∧ p a

namespace KeepsTo

variable {calls more : List LoggedCall} {p : α → Prop} {x : SiteM ε α}

theorem quiet (kept : Keeps (·.server) x) : KeepsTo [] (fun _ => True) x := by
  intro site
  refine ⟨[], List.nil_prefix, ?_, fun a ok => ⟨rfl, trivial⟩⟩
  rw [List.append_nil]
  exact congrArg Repository.calls (kept site)

theorem pure {a : α} (h : p a) : KeepsTo [] p (Pure.pure a : SiteM ε α) := by
  refine fun site => ⟨[], List.nil_prefix, (List.append_nil _).symm, fun b ok => ⟨rfl, ?_⟩⟩
  cases ok
  exact h

theorem throw (e : ε) : KeepsTo calls p (throw e : SiteM ε α) := fun _ =>
  ⟨[], List.nil_prefix, (List.append_nil _).symm, fun _ ok => nomatch ok⟩

theorem report (line : String) : KeepsTo [] (fun _ => True) (Site.report line : SiteM ε Unit) :=
  quiet (.modify fun _ => rfl)

theorem adapt (f : ε → ε') (h : KeepsTo calls p x) : KeepsTo calls p (x.adapt f) := by
  intro site
  obtain ⟨made, first, logged, all⟩ := h site
  refine ⟨made, first, logged, fun a ok => all a ?_⟩
  rw [adapt_apply] at ok
  cases result : (x site).1 with
  | error e =>
    rw [result] at ok
    cases ok
  | ok b =>
    rw [result] at ok
    cases ok
    rfl

/-- What comes second makes its calls only after what comes first has made all of its own. -/
theorem bind {q : β → Prop} {f : α → SiteM ε β} (hx : KeepsTo calls p x)
    (hf : ∀ a, p a → KeepsTo more q (f a)) : KeepsTo (calls ++ more) q (x >>= f) := by
  intro site
  obtain ⟨made, first, logged, all⟩ := hx site
  rw [bind_apply]
  rcases h : x site with ⟨e | a, mid⟩ <;> rw [h] at logged all
  · exact ⟨made, first.trans (List.prefix_append _ _), logged, fun b ok => nomatch ok⟩
  · obtain ⟨rfl, holds⟩ := all a rfl
    obtain ⟨later, next, logged', all'⟩ := hf a holds mid
    refine ⟨made ++ later, (List.prefix_append_right_inj made).2 next, ?_, fun b ok => ?_⟩
    · show (f a mid).2.server.calls = _
      rw [logged', logged, List.append_assoc]
    · obtain ⟨rfl, holds'⟩ := all' b ok
      exact ⟨rfl, holds'⟩

theorem quietly {q : β → Prop} {f : α → SiteM ε β} (hx : KeepsTo [] p x)
    (hf : ∀ a, p a → KeepsTo more q (f a)) : KeepsTo more q (x >>= f) := hx.bind hf

theorem andQuiet {q : β → Prop} {f : α → SiteM ε β} (hx : KeepsTo calls p x)
    (hf : ∀ a, p a → KeepsTo [] q (f a)) : KeepsTo calls q (x >>= f) := by
  rw [← List.append_nil calls]
  exact hx.bind hf

/-- A computation for each element of a list makes one call for each. -/
theorem mapM {call : LoggedCall} {related : α → β → Prop} {f : α → SiteM ε β}
    (h : ∀ a, KeepsTo [call] (related a) (f a)) (l : List α) :
    KeepsTo (l.map fun _ => call) (List.Forall₂ related l) (l.mapM f) := by
  induction l with
  | nil => exact pure .nil
  | cons a rest ih =>
    rw [List.mapM_cons]
    exact bind (h a) fun b holds => andQuiet ih fun bs others => pure (.cons holds others)

end KeepsTo

/-! ## One call each -/

theorem KeepsTo.served {act : RepositoryM α} {call : LoggedCall} {p : α → Prop}
    (logs : ∀ r, (act r).2.calls = r.calls ++ [call]) (result : ∀ r a, (act r).1 = .ok a → p a) :
    KeepsTo [call] p (served act) := by
  refine KeepsTo.adapt _ fun site => ⟨[call], List.prefix_rfl, logs site.server, fun a ok => ⟨rfl, ?_⟩⟩
  exact result site.server a ok

theorem calls_asking (operation : Operation) (source : String) (answer : Repository → Except RepositoryError α)
    (r : Repository) : (Repository.asking operation source answer r).2.calls = r.calls ++ [(operation, source)] := by
  rw [Repository.asking_apply]
  rfl

theorem calls_accept (h : SourceHandle) (ids : List ItemId) (r : Repository) :
    (Repository.accept h ids r).2.calls = r.calls ++ [(.accept, h.selection.name)] := by
  unfold Repository.accept
  rw [bind_apply, Repository.enter_apply]
  cases r.failing.contains Operation.accept.key with
  | true => rfl
  | false =>
    show (((get : RepositoryM Repository) >>= _) (r.logged .accept h.selection.name)).2.calls = _
    rw [get_bind_apply, bind_apply, lift_apply]
    cases (r.logged .accept h.selection.name).sourceOf h <;> rfl

theorem keepsTo_testConnection : KeepsTo [(.testConnection, "server")] (fun _ => True)
    (served Repository.testConnection) := by
  refine .served (fun r => ?_) fun _ _ _ => trivial
  rw [Repository.testConnection_eq]
  exact calls_asking _ _ _ _

theorem keepsTo_resolveSource (selection : Selection) : KeepsTo [(.resolveSource, selection.name)]
    (·.selection = selection) (served (Repository.resolveSource selection)) := by
  refine .served (fun r => ?_) fun r source ok => ?_
  · rw [Repository.resolveSource_eq]
    exact calls_asking _ _ _ _
  · obtain ⟨s, -, rfl⟩ := resolveSource_eq_ok (Prod.ext ok rfl)
    rfl

theorem keepsTo_listComponents (h : SourceHandle) : KeepsTo [(.listComponents, h.selection.name)] (fun _ => True)
    (served (Repository.listComponents h)) := by
  refine .served (fun r => ?_) fun _ _ _ => trivial
  rw [Repository.listComponents_eq]
  exact calls_asking _ _ _ _

theorem keepsTo_contentOf (h : SourceHandle) (component : ItemId) (path : String) :
    KeepsTo [(.readFile, h.selection.name)] (fun _ => True) (served (Repository.contentOf h component path)) := by
  refine .served (fun r => ?_) fun _ _ _ => trivial
  rw [Repository.contentOf_eq]
  exact calls_asking _ _ _ _

theorem keepsTo_filesFor (h : SourceHandle) (request : LoadRequest) :
    KeepsTo [(.load, h.selection.name)] (fun _ => True) (Site.onServer (Repository.filesFor h request)) := by
  intro site
  refine ⟨_, List.prefix_rfl, ?_, fun _ _ => ⟨rfl, trivial⟩⟩
  show (Repository.filesFor h request site.server).2.calls = _
  rw [Repository.filesFor_eq]
  exact calls_asking _ _ _ _

/-! ## Stages -/

theorem keepsTo_configured (result : Except ConfigurationError α) :
    KeepsTo [] (fun a => result = .ok a) (configured result) := by
  cases result with
  | error e => exact .throw _
  | ok a => exact .pure rfl

/-- A rule file costs one call, unless its place is wrong. -/
theorem keepsTo_readRuleFile (source : SourceHandle) (components : List Component) (spec : RuleFileSpec) :
    KeepsTo [(.readFile, source.selection.name)] (fun file => file.spec = spec)
      (readRuleFile source components spec) := by
  refine .quietly (keepsTo_configured _) fun ⟨name, path⟩ _ => ?_
  refine .quietly (keepsTo_configured _) fun owner _ => ?_
  cases owner with
  | none => exact .throw _
  | some owner => exact .andQuiet (keepsTo_contentOf _ _ _) fun content _ => .pure rfl

/-- The files of a reference are those that were configured, in their order. -/
def ReadsAll (c : Configuration) (reference : Option RuleReference) : Prop :=
  ∃ files : List RuleFile, files.map (·.spec) = c.ruleFiles ∧ reference = RuleReference.classify? files

theorem keepsTo_readReference (c : Configuration) (version : ServerVersion) (source : SourceHandle)
    (components : List Component) :
    KeepsTo (c.ruleFiles.map fun _ => (.readFile, source.selection.name)) (ReadsAll c)
      (readReference c version source components) := by
  refine .quietly (keepsTo_configured _) fun _ _ => ?_
  refine .andQuiet (.mapM (keepsTo_readRuleFile source components) c.ruleFiles) fun files each => ?_
  have named : files.map (·.spec) = c.ruleFiles := by
    generalize c.ruleFiles = specs at each
    induction each with
    | nil => rfl
    | cons first _ ih => rw [List.map_cons, first, ih]
  exact .quietly (keepsTo_configured _) fun _ _ => .pure ⟨files, named, rfl⟩

structure FromConfiguration (c : Configuration) (r : ResolvedFetch) : Prop where
  configuration : r.configuration = c
  selection : r.source.selection = c.selection
  reference : ReadsAll c r.reference

theorem keepsTo_resolve (m : Machine) (job : Configuration) :
    KeepsTo (resolvingScript job.forRun) (FromConfiguration job.forRun) (resolve m job) := by
  rw [resolvingScript_eq]
  refine .quietly (keepsTo_configured _) fun _ _ => ?_
  refine .bind keepsTo_testConnection fun version _ => ?_
  refine .bind (keepsTo_resolveSource _) fun source selection => ?_
  refine .quietly (.report _) fun _ _ => ?_
  rw [← selection]
  refine .bind (keepsTo_listComponents source) fun components _ => ?_
  refine .andQuiet (keepsTo_readReference _ _ source _) fun reference reads => ?_
  refine .quietly (keepsTo_configured _) fun rules _ => ?_
  refine .quietly (keepsTo_configured _) fun set _ => ?_
  exact .quietly (keepsTo_configured _) fun plan _ => .pure ⟨rfl, selection, reads⟩

theorem keepsTo_accepting {c : Configuration} {r : ResolvedFetch} (belongs : FromConfiguration c r) :
    KeepsTo (acceptingScript c) (fun _ => True) (accepting r) := by
  unfold accepting acceptingScript
  rw [belongs.configuration]
  split
  · rw [map_eq_pure_bind]
    refine .andQuiet (p := fun _ => True) (.quietly (.report _) fun _ _ => ?_) fun o _ => .pure trivial
    rw [← belongs.selection]
    refine .andQuiet (p := fun _ => True) (.served (calls_accept _ _) fun _ _ _ => trivial) fun taken _ => ?_
    exact .quietly (.report _) fun _ _ => .pure trivial
  · exact .pure trivial

/-- Loads into the destination, without the metadata. -/
def storing (r : ResolvedFetch) : FetchM LoadOutcome := do
  Site.report ("Loading " ++ Text.writeNat r.plan.entries.length ++ " components into " ++ r.plan.root.text)
  ensureDestination r.plan.root
  (Site.load r.source r.plan.request).adapt .repository

theorem loading_eq (m : Machine) (r : ResolvedFetch) : loading m r = (do
    let loaded ← storing r
    writeMetadata r m.now
    return loaded.files) := by
  unfold loading storing
  simp only [bind_assoc]

theorem keepsTo_storing (r : ResolvedFetch) :
    KeepsTo [(.load, r.source.selection.name)] (fun _ => True) (storing r) := by
  refine .quietly (.report _) fun _ _ => .quietly (.quiet (ensureDestination_keeps_server _)) fun _ _ => .adapt _ ?_
  refine .andQuiet (keepsTo_filesFor _ _) fun files _ => ?_
  exact .quietly (.adapt _ (.quiet (Site.onDisk_keeps_server _))) fun _ _ => .pure trivial

theorem keepsTo_loading (m : Machine) (r : ResolvedFetch) :
    KeepsTo [(.load, r.source.selection.name)] (fun _ => True) (loading m r) := by
  rw [loading_eq]
  refine .andQuiet (keepsTo_storing r) fun loaded _ => ?_
  exact .quietly (.quiet ((Site.onDisk_keeps_server _).adapt _)) fun _ _ => .pure trivial

/-- A run makes the calls of its script. -/
theorem keepsTo_run (m : Machine) (job : Configuration) :
    KeepsTo (script job.forRun) (fun out => ReadsAll job.forRun out.resolved.reference) (run m job) := by
  rw [run_eq, script, List.append_assoc]
  refine .bind (keepsTo_resolve m job) fun r belongs => ?_
  refine .quietly (.quiet (emptying_keeps_server m r)) fun _ _ => .bind (keepsTo_accepting belongs) fun taken _ => ?_
  rw [← belongs.selection]
  exact .andQuiet (keepsTo_loading m r) fun files _ => .pure belongs.reference

/-! ## Where a run stops -/

/-- Between two states of a site some calls were made, and no source changed. -/
structure OnlyCalled (made : List LoggedCall) (site site' : Site) : Prop where
  calls : site'.server.calls = site.server.calls ++ made
  sources : site'.server.sources = site.server.sources

/-- A run goes through its steps in order, and one that failed is the last one. -/
structure FailStop (m : Machine) (job : Configuration) (site : Site) : Prop where
  calls : ∃ made, made <+: script job.forRun ∧ (run m job site).2.server.calls = site.server.calls ++ made
  complete : ∀ out, (run m job site).1 = .ok out →
    (run m job site).2.server.calls = site.server.calls ++ script job.forRun ∧ ReadsAll job.forRun out.resolved.reference
  /-- A destination that is refused has no effect at all. -/
  refused : ∀ e, resolveDestination job.forRun.destination m.workingDir m.host = .error e →
    resolve m job site = (.error (.configuration e), site) ∧ run m job site = (.error (.configuration e), site)
  /-- Whatever comes of it, resolving only asks. -/
  asking : (resolve m job site).2.disk = site.disk ∧
    ∃ made, made <+: resolvingScript job.forRun ∧ OnlyCalled made site (resolve m job site).2
  unresolved : ∀ e stop, resolve m job site = (.error e, stop) → run m job site = (.error e, stop)
  /-- When the destination cannot be emptied, or only some of it can, the server is left as resolving
      left it. What is no longer on the disk was below the destination. -/
  notEmptied : ∀ r mid e stop, resolve m job site = (.ok r, mid) → emptying m r mid = (.error e, stop) →
    run m job site = (.error e, stop) ∧ OnlyCalled (resolvingScript job.forRun) site stop ∧
      ∀ l, stop.disk.tree.at? l = site.disk.tree.at? l ∨
        site.disk.isUnder r.plan.root l = true ∧ stop.disk.tree.at? l = none
  /-- When the accept fails, nothing is loaded, and whatever the disk has was there before. -/
  notAccepted : ∀ r mid empty e stop, resolve m job site = (.ok r, mid) → emptying m r mid = (.ok (), empty) →
    accepting r empty = (.error e, stop) → run m job site = (.error e, stop) ∧
      OnlyCalled (resolvingScript job.forRun ++ acceptingScript job.forRun) site stop ∧
      ∀ l n, stop.disk.tree.at? l = some n → site.disk.tree.at? l = some n
  /-- When the load fails, the run ends in the state that the load left. -/
  notLoaded : ∀ r mid empty taken accepted e stop, resolve m job site = (.ok r, mid) →
    emptying m r mid = (.ok (), empty) → accepting r empty = (.ok taken, accepted) →
    storing r accepted = (.error e, stop) → run m job site = (.error e, stop)
  /-- After a load that succeeded, the last step writes the metadata. -/
  loaded : ∀ r mid empty taken accepted files stored, resolve m job site = (.ok r, mid) →
    emptying m r mid = (.ok (), empty) → accepting r empty = (.ok taken, accepted) →
    storing r accepted = (.ok files, stored) → (run m job site).2 = (writeMetadata r m.now stored).2

theorem resolve_keeps (m : Machine) (job : Configuration) :
    Keeps (fun site => (site.server.sources, site.disk)) (resolve m job) := by
  have served_keeps : ∀ {α : Type} {act : RepositoryM α}, Keeps (·.sources) act →
      Keeps (fun site => (site.server.sources, site.disk)) (served act) := fun h =>
    (served_keeps_standing h).through fun standing => (standing.1, standing.2.1)
  exact .bind (configured_keeps _ _) fun _ =>
    .bind (served_keeps Repository.testConnection_keeps_sources) fun _ =>
    .bind (served_keeps (Repository.resolveSource_keeps_sources _)) fun _ =>
    .bind (.modify fun _ => rfl) fun _ =>
    .bind (served_keeps (Repository.listComponents_keeps_sources _)) fun _ =>
    .bind (readReference_keeps (fun _ _ => served_keeps (Repository.contentOf_keeps_sources _ _ _)) _ _ _) fun _ =>
    .bind (configured_keeps _ _) fun _ =>
    .bind (configured_keeps _ _) fun _ =>
    .bind (configured_keeps _ _) fun _ => .pure _

/-- Whether it succeeds or stops somewhere, emptying only takes away what is below the destination. -/
theorem emptying_frame (m : Machine) (r : ResolvedFetch) (site : Site) (l : Location) :
    (emptying m r site).2.disk.tree.at? l = site.disk.tree.at? l ∨
      site.disk.isUnder r.plan.root l = true ∧ (emptying m r site).2.disk.tree.at? l = none := by
  unfold emptying
  split
  · rw [Disk.isUnder_iff]
    exact clearDestination_frame m.hindrances r.plan.root _ l
  · exact .inl rfl

/-- An accept that failed made its call, and left the sources and the disk as they were. -/
theorem accepting_eq_error {c : Configuration} {r : ResolvedFetch} {site site' : Site} {e : FetchError}
    (belongs : FromConfiguration c r) (failed : accepting r site = (.error e, site')) :
    OnlyCalled (acceptingScript c) site site' ∧ site'.disk = site.disk := by
  unfold accepting at failed
  unfold acceptingScript
  rw [belongs.configuration] at failed
  split at failed
  · next accepts =>
    rw [if_pos accepts, ← belongs.selection]
    rcases bind_eq_error.1 (map_eq_error.1 failed) with told | ⟨⟨⟩, s₁, told, failed⟩
    · cases told
    · cases told
      rcases bind_eq_error.1 failed with refused | ⟨taken, s₂, -, counted⟩
      · obtain ⟨fault, refused, -⟩ := adapt_eq_error.1 refused
        obtain ⟨server, answered, rfl⟩ := Site.onServer_eq.1 refused
        have logs := calls_accept r.source r.plan.ids site.server
        rw [answered] at logs
        exact ⟨⟨logs, Repository.accept_keeps_of_error answered⟩, rfl⟩
      · rcases bind_eq_error.1 counted with told | ⟨⟨⟩, s₃, -, answered⟩
        · cases told
        · cases answered
  · cases failed

/-- A run goes through its steps in order and stops at the first one that fails. -/
theorem run_failStop (m : Machine) (job : Configuration) (site : Site) : FailStop m job site := by
  obtain ⟨made, first, logged, all⟩ := keepsTo_run m job site
  obtain ⟨asked, beginning, logged', resolved⟩ := keepsTo_resolve m job site
  have kept := resolve_keeps m job site
  rw [Prod.mk.injEq] at kept
  -- what is known once the plan is resolved
  have planned : ∀ r mid, resolve m job site = (.ok r, mid) →
      OnlyCalled (resolvingScript job.forRun) site mid ∧ mid.disk = site.disk ∧ FromConfiguration job.forRun r := by
    intro r mid done
    rw [done] at logged' resolved kept
    obtain ⟨rfl, belongs⟩ := resolved r rfl
    exact ⟨⟨logged', kept.1⟩, kept.2, belongs⟩
  constructor
  · exact ⟨made, first, logged⟩
  · intro out ok
    obtain ⟨rfl, reads⟩ := all out ok
    exact ⟨logged, reads⟩
  · intro e bad
    have stops : configured (resolveDestination job.forRun.destination m.workingDir m.host) site =
        (.error (.configuration e), site) := by
      rw [bad]
      rfl
    have refused : resolve m job site = (.error (.configuration e), site) := bind_of_error stops _
    exact ⟨refused, bind_of_error refused _⟩
  · exact ⟨kept.2, asked, beginning, logged', kept.1⟩
  · exact fun e stop failed => bind_of_error failed _
  · intro r mid e stop done failed
    obtain ⟨called, disk, -⟩ := planned r mid done
    have same : stop.server = mid.server := (emptying_keeps_server m r).of_eq failed
    have frame := emptying_frame m r mid
    rw [failed, disk] at frame
    refine ⟨by rw [run_eq, bind_of_ok done, bind_of_error failed], ⟨?_, ?_⟩, frame⟩
    · rw [same, called.calls]
    · rw [same, called.sources]
  · intro r mid empty e stop done emptied failed
    obtain ⟨called, disk, belongs⟩ := planned r mid done
    have same : empty.server = mid.server := (emptying_keeps_server m r).of_eq emptied
    obtain ⟨refused, disk'⟩ := accepting_eq_error belongs failed
    refine ⟨by rw [run_eq, bind_of_ok done, bind_of_ok emptied, bind_of_error failed], ⟨?_, ?_⟩, fun l n there => ?_⟩
    · rw [refused.calls, same, called.calls, List.append_assoc]
    · rw [refused.sources, same, called.sources]
    · have frame := emptying_frame m r mid l
      rw [emptied, disk, ← disk', there] at frame
      rcases frame with kept | ⟨-, gone⟩
      · exact kept.symm
      · cases gone
  · intro r mid empty taken accepted e stop done emptied accepts failed
    rw [run_eq, bind_of_ok done, bind_of_ok emptied, bind_of_ok accepts, loading_eq, bind_assoc, bind_of_error failed]
  · intro r mid empty taken accepted files stored done emptied accepts loaded
    rw [run_eq, bind_of_ok done, bind_of_ok emptied, bind_of_ok accepts, loading_eq, bind_assoc, bind_of_ok loaded,
      bind_assoc, bind_apply]
    rcases writeMetadata r m.now stored with ⟨_ | _, _⟩ <;> rfl

/-- A run whose accept fails has emptied its destination, and does not load. -/
example : ((Repository.ofFixture noonOfMay ⟨[], 0, []⟩ oneFile).map fun start =>
    let stop := (run workMachine (emptyInto "out") { server := start.failOn "accept", disk := staleDisk }).2
    (stop.server.calls.map Repository.callText, stop.disk.tree.entries.map (·.1))) =
    .ok (["test_connection:server", "resolve_source:ws", "list_components:ws", "accept:ws"],
      [["work", "out"], ["work"]]) := by
  decide +kernel

/-- On a machine that does not read on after one name, what had that name is gone, and nothing is
    accepted. -/
example : ((Repository.ofFixture noonOfMay ⟨[], 0, []⟩ oneFile).map fun start =>
    let m := { workMachine with hindrances := { reading := fun _ n => if n = 1 then some .notFound else none } }
    let disk : Disk := { tree := staleDisk.tree.put ["work", "out", "new.txt"] (.file "") }
    let stop := (run m (emptyInto "out") { server := start, disk }).2
    (stop.server.calls.map Repository.callText, stop.disk.tree.entries.map (·.1))) =
    .ok (["test_connection:server", "resolve_source:ws", "list_components:ws"],
      [["work", "out", "old.txt"], ["work", "out"], ["work"]]) := by
  decide +kernel

end SandboxFetch.Fetch
