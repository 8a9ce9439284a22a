import NodeManager.RevisionIds

namespace NodeManager.RevisionRollback

open Dictionary JsonValues Revisions RevisionRuns Runs

/-- An apply that publishes nothing: it fails with everything as before, or replays the current
revision. -/
def Idle (site : Site) (node : Node) (step : Step) : Prop :=
  (∃ mode request reading fate, step = .apply mode request reading fate) ∧
    site.committing step node = none

/-- An apply or a rollback that succeeds and is no replay. -/
def Publishes (site : Site) (mode : Mode) (node : Node) (step : Step) : Prop :=
  (∃ request reading fate receipt, step = .apply mode request reading fate ∧
      (site.next step node).1 = some (.ok receipt) ∧ receipt.replayed = false) ∨
    ∃ reading fate receipt, step = .rollback mode reading fate ∧
    (site.next step node).1 = some (.ok receipt)

def Reached (site : Site) (node : Node) : Prop :=
  ∃ config registry steps, node = run site.after steps (Node.start config registry)

def Restored (before after : Node) : Prop :=
  after.config = before.config ∧ after.registry = before.registry

/-- A runtime publication that reads the registry adds no default, and one that writes it takes no
version out. -/
def Intact (site : Site) (reading writing : Mode) (node : Node) : Prop :=
  ∀ config ∈ node.config, ∀ registry ∈ node.registry,
    (reading = .runtime → registry.version ≠ none ∧ registry.expiredUsers ≠ none) ∧
      (writing = .runtime → ∀ versions ∈ registry.runtimeUserVersions, ∀ user ∈ versions.keys,
        user ∈ site.discover config registry)

instance (site : Site) (reading writing : Mode) (node : Node) :
    Decidable (Intact site reading writing node) := by
  unfold Intact; infer_instance

variable {site : Site} {mode mode₁ mode₂ : Mode} {node : Node} {target : Bundle} {action : String}
  {reading : Reading} {config : Object} {registry : Registry} {request : Request} {fate : Fate}
  {receipt : Receipt} {steps : List Step}

theorem withDefaults_eq_self :
    registry.withDefaults = registry ↔ registry.version ≠ none ∧ registry.expiredUsers ≠ none := by
  obtain ⟨version, users, expiredUsers, versions, other⟩ := registry
  cases version <;> cases expiredUsers <;> simp [Registry.withDefaults]

theorem prune_eq_self : site.prune config registry = registry ↔
    ∀ versions ∈ registry.runtimeUserVersions, ∀ user ∈ versions.keys,
    user ∈ site.discover config registry := by
  obtain ⟨version, users, expiredUsers, versions, other⟩ := registry
  cases versions <;> simp [Site.prune, Dict.filterKeys_eq_self]

theorem write_read_eq_self : site.write mode₂ config (mode₁.read registry) = registry ↔
    (mode₁ = .runtime → registry.version ≠ none ∧ registry.expiredUsers ≠ none) ∧
      (mode₂ = .runtime → ∀ versions ∈ registry.runtimeUserVersions, ∀ user ∈ versions.keys,
        user ∈ site.discover config registry) := by
  rw [← withDefaults_eq_self, ← prune_eq_self]
  have hdefaults : ∀ r : Registry, site.prune config r.withDefaults = r → r.withDefaults = r := by
    intro r h
    rw [← h]
    rfl
  cases mode₁ <;> cases mode₂ <;>
    simp only [Site.write, Mode.read, reduceCtorEq, false_implies, true_implies, true_and, and_true]
  constructor
  · intro h
    have hsame := hdefaults registry h
    rw [hsame] at h
    exact ⟨hsame, h⟩
  · rintro ⟨hsame, h⟩
    rw [hsame, h]

theorem kept_live (mode : Mode) (hconfig : node.config = some config)
    (hregistry : node.registry = some registry) :
    ∃ previous, site.kept mode node = some previous ∧ previous.config = config ∧
      previous.registry = mode.read registry ∧ previous.nodeId = site.nodeId := by
  refine ⟨site.previous node.readState config
    (mode.read registry), by simp only [Site.kept, hconfig, hregistry], ?_⟩
  simp only [Env.previous]
  split <;> exact ⟨rfl, rfl, rfl⟩

theorem decideRollback_committed (target : Bundle) (action : String) (reading : Reading)
    {previous : Bundle} (hkept : site.kept mode node = some previous)
    (hnode : previous.nodeId = site.nodeId) :
    site.decideRollback (site.committed mode target action reading node) = .commit previous := by
  have hlast : (site.committed mode target action reading node).lastGoodBundle = some previous := by
    simp [Site.committed, hkept]
  have hhash : (site.committed mode target action reading node).readState.lastGoodHash =
      some (site.digest previous) := by
    cases mode <;>
      simp [Node.readState, Site.committed, Site.nextState, State.publish, State.appendHistory,
        State.keep, hkept]
  simp [Site.decideRollback, hlast, hhash, hnode]

theorem apply_published (hok : (site.next (.apply mode request reading fate) node).1 =
    some (.ok receipt)) (hnew : receipt.replayed = false) :
    ∃ target action reading', site.after (.apply mode request reading fate) node =
      site.committed mode target action reading'
      ((Step.apply mode request reading fate).seen node) := by
  obtain ⟨_, _, h⟩ | ⟨-, -, hreplay⟩ | ⟨mode', target, action, reading', hcommit, hafter, -⟩ :=
    next_cases site (.apply mode request reading fate) node
  · cases h
  · obtain ⟨_, _, _, _, -, hdecide⟩ := hreplay receipt hok
    obtain ⟨_, _, _, -, -, -, -, hreplayed, -⟩ := decideApply_ok hdecide
    cases hnew.symm.trans hreplayed
  · obtain ⟨rfl, -⟩ := committing_apply hcommit
    exact ⟨target, action, reading', hafter⟩

theorem rollback_published (hok : (site.next (.rollback mode reading fate) node).1 =
    some (.ok receipt)) :
    ∃ target action reading', site.decideRollback node = .commit target ∧ node.seen reading = node ∧
      site.after (.rollback mode reading fate) node =
      site.committed mode target action reading' node := by
  obtain ⟨_, _, h⟩ | ⟨-, -, hreplay⟩ | ⟨mode', target, action, reading', hcommit, hafter, -⟩ :=
    next_cases site (.rollback mode reading fate) node
  · cases h
  · obtain ⟨_, _, _, _, h, -⟩ := hreplay receipt hok
    cases h
  · obtain ⟨rfl, hdecide⟩ := committing_rollback hcommit
    have hseen := seen_of_decideRollback hdecide
    rw [hseen] at hdecide
    rw [show (Step.rollback mode' reading fate).seen node = node from hseen] at hafter
    exact ⟨target, action, reading', hdecide, hseen, hafter⟩

theorem idle_after {step : Step} (h : Idle site node step) : site.after step node = node := by
  obtain ⟨⟨mode, request, reading, fate, rfl⟩, hcommit⟩ := h
  obtain ⟨_, _, hstep⟩ | ⟨-, hafter, -⟩ | ⟨_, _, _, _, hsome, -⟩ :=
    next_cases site (.apply mode request reading fate) node
  · cases hstep
  · exact hafter
  · cases hcommit.symm.trans hsome

theorem idle_run (hidle : Permitted site.after (Idle site) steps node) :
    run site.after steps node = node := by
  induction steps with
  | nil => rfl
  | cons step steps ih =>
    obtain ⟨hstep, hrest⟩ := hidle
    rw [idle_after hstep] at hrest
    rw [run, idle_after hstep]
    exact ih hrest

/-- A rollback right after a commit restores the live files just if both leave the registry as it
is. -/
theorem rollback_committed {reading₂ : Reading} (hlive : node.Live)
    (hok : (site.next (.rollback mode₂ reading₂ fate)
      (site.committed mode₁ target action reading node)).1 =
    some (.ok receipt)) :
    Restored node (site.after (.rollback mode₂ reading₂ fate)
      (site.committed mode₁ target action reading node)) ↔
      Intact site mode₁ mode₂ node := by
  obtain ⟨found, action', reading', hdecide, -, hafter⟩ := rollback_published hok
  cases hkept : site.kept mode₁ node with
  | none =>
    -- no snapshot was kept, and there was none before
    have hlast : node.lastGoodBundle = some found := by
      have := decideRollback_commit hdecide
      simpa [Site.committed, hkept] using this
    obtain ⟨hconfig, hregistry⟩ := hlive (by simp [hlast])
    obtain h | h := kept_none hkept
    · exact absurd h hconfig
    · exact absurd h hregistry
  | some previous =>
    cases hconfig : node.config with
    | none => simp [Site.kept, hconfig] at hkept
    | some config =>
      cases hregistry : node.registry with
      | none => simp [Site.kept, hconfig, hregistry] at hkept
      | some registry =>
        obtain ⟨previous', hkept', hcontent, hread, hnode⟩ := kept_live mode₁ hconfig hregistry
        obtain rfl : previous' = previous := Option.some.inj (hkept'.symm.trans hkept)
        obtain rfl : found = previous' := by
          have := decideRollback_committed target action reading hkept hnode
          exact Decision.commit.inj (hdecide.symm.trans this)
        rw [hafter]
        simp [Restored, Intact, Site.committed, hconfig, hregistry, hcontent, hread,
          write_read_eq_self]

theorem live_run (hlive : node.Live) : (run site.after steps node).Live := by
  induction steps generalizing node with
  | nil => exact hlive
  | cons step steps ih => exact ih (live_after hlive)

theorem Publishes.committed {opening : Step} (h : Publishes site mode node opening) :
    ∃ target action reading,
      site.after opening node = site.committed mode target action reading (opening.seen node) := by
  obtain ⟨_, _, _, _, rfl, hok, hnew⟩ | ⟨_, _, _, rfl, hok⟩ := h
  · exact apply_published hok hnew
  · obtain ⟨target, action, reading, -, hseen, hafter⟩ := rollback_published hok
    exact ⟨target, action, reading, by rw [Step.seen, hseen, hafter]⟩

theorem rollback_restores_iff {opening : Step} {between : List Step} {fate : Fate}
    {receipt : Receipt} (hreached : Reached site node)
    (hopening : Publishes site mode₁ node opening)
    (hidle : Permitted site.after (Idle site) between (site.after opening node))
    (hok : (site.next (.rollback mode₂ reading fate) (run site.after (opening :: between) node)).1 =
      some (.ok receipt)) :
    Restored node (site.after (.rollback mode₂ reading fate)
      (run site.after (opening :: between) node)) ↔
      Intact site mode₁ mode₂ node := by
  obtain ⟨config, registry, steps, rfl⟩ := hreached
  obtain ⟨target, action, reading', hcommitted⟩ := hopening.committed
  rw [run, idle_run hidle, hcommitted] at hok ⊢
  have hlive : (opening.seen (run site.after steps (Node.start config registry))).Live := by
    simpa [Node.Live] using live_run (live_start config registry)
  simpa [Restored, Intact] using rollback_committed hlive hok

theorem next_apply (h : site.decideApply mode request reading (node.seen reading) =
    .commit target) :
    (site.next (.apply mode request reading .success) node).1 =
      some (.ok ⟨target.revisionId, false,
        site.nextState mode target "applied" reading (node.seen reading)⟩) := by
  simp only [Site.next, Site.applyDesiredRevision, h]
  rfl

theorem next_rollback (h : site.decideRollback (node.seen reading) = .commit target) :
    (site.next (.rollback mode reading .success) node).1 =
      some (.ok ⟨target.revisionId, false,
        site.nextState mode target "rolled-back" reading (node.seen reading)⟩) := by
  simp only [Site.next, Site.rollbackToLastKnownGood, h]
  rfl

/-- The files that are live before the first revision come back after another apply has failed. -/
theorem unversioned_files_restored :
    Restored RevisionIds.unversioned
    (plainSite.after (.rollback .runtime {} .success)
    (run plainSite.after [RevisionIds.applied .legacy "r1" 1,
      .apply .runtime (RevisionIds.requested "r2" 2) {} (.restored "reload failed")]
      RevisionIds.unversioned)) :=
  (@rollback_restores_iff plainSite .legacy .runtime RevisionIds.unversioned {}
    (RevisionIds.applied .legacy "r1" 1)
    [.apply .runtime (RevisionIds.requested "r2" 2) {} (.restored "reload failed")] .success _
    ⟨_, _, [], rfl⟩ (.inl ⟨_, _, _, _, rfl, rfl, rfl⟩)
    ⟨⟨⟨_, _, _, _, rfl⟩, by decide +kernel⟩, trivial⟩ rfl).mpr (by decide +kernel)

def withoutExpired : Node := plainSite.after (RevisionIds.applied .runtime "r1" 1)
    RevisionIds.unversioned

/-- The next revision is applied and taken back, and the registry has an entry it did not have. -/
theorem defaults_added_by_rollback : Reached plainSite withoutExpired ∧
    Publishes plainSite .runtime withoutExpired (RevisionIds.applied .runtime "r2" 2) ∧
    (∃ receipt, (plainSite.next (.rollback .runtime {} .success)
      (plainSite.after (RevisionIds.applied .runtime "r2" 2) withoutExpired)).1 =
      some (.ok receipt)) ∧
    ¬ Restored withoutExpired (plainSite.after (.rollback .runtime {} .success)
      (plainSite.after (RevisionIds.applied .runtime "r2" 2) withoutExpired)) := by
  have hdecide : plainSite.decideApply .runtime (RevisionIds.requested "r2" 2) {} withoutExpired =
      .commit (plainSite.bundle (some "r2") [("setting", .num 2)]
        { version := some (.num 1) }) := by
    decide +kernel
  have hrollback : plainSite.decideRollback
      (plainSite.after (RevisionIds.applied .runtime "r2" 2) withoutExpired) =
      .commit (plainSite.previous withoutExpired.readState [("setting", .num 1)]
        { version := some (.num 1), expiredUsers := some [] }) := by
    decide +kernel
  refine ⟨⟨_, _, [RevisionIds.applied .runtime "r1" 1], rfl⟩,
    .inl ⟨_, _, _, _, rfl, next_apply hdecide, rfl⟩, ⟨_, next_rollback hrollback⟩, ?_⟩
  rintro ⟨-, hregistry⟩
  revert hregistry
  decide +kernel

end NodeManager.RevisionRollback
