import NodeManager.RevisionRuns

namespace NodeManager.RevisionIds

open Dictionary JsonValues Revisions RevisionRuns Runs

def Readable (node : Node) : Step → Prop
  | .apply _ _ reading _ | .rollback _ reading _ => reading.legible = true ∨ node.state = none
  | .mutate _ _ => True

instance (node : Node) (step : Step) : Decidable (Readable node step) := by
  rcases step <;> (unfold Readable; infer_instance)

def Step.mode : Step → Mode
  | .apply mode _ _ _ | .rollback mode _ _ => mode
  | .mutate _ _ => .legacy

def Site.asked (site : Site) (node : Node) : Step → Option Bundle
  | .apply _ request _ _ =>
    (validateRegistryPayload request.registry).toOption.map
      (site.bundle (some request.revisionId) request.config)
  | .rollback _ _ _ => node.lastGoodBundle
  | .mutate _ _ => none

/-- Files that are not the bundle of the current revision have an identity of their own, `local-`
and a part of their digest. It is not the one of the bundle asked for and is bound to no other
content. -/
def Distinct (site : Site) (node : Node) (step : Step) : Prop :=
  ∀ target ∈ Site.asked site node step, ∀ config ∈ node.config, ∀ registry ∈ node.registry,
    let live := site.bundle node.readState.currentRevisionId config ((Step.mode step).read registry)
    let snapshot := { live with revisionId := some (site.localId live) }
    live.revisionId = none ∨ some (site.digest live) ≠ node.readState.bundleHash →
      (target.revisionId = snapshot.revisionId → site.digest target = site.digest snapshot) ∧
        ∀ hash ∈ node.bound (site.localId live), hash = site.digest snapshot

instance (site : Site) (node : Node) (step : Step) : Decidable (Distinct site node step) := by
  unfold Distinct; infer_instance

def Proper (site : Site) (node : Node) (step : Step) : Prop :=
  Readable node step ∧ Distinct site node step

instance (site : Site) (node : Node) (step : Step) : Decidable (Proper site node step) :=
  inferInstanceAs (Decidable (_ ∧ _))

/-- The current revision is bound to the digest of its bundle, and the last good one can be rolled
back to. -/
structure Filed (site : Site) (node : Node) : Prop where
  current : ∀ revisionId ∈ node.readState.currentRevisionId, ∃ hash,
    node.readState.bundleHash = some hash ∧ node.bound revisionId = some hash
  live : node.Live
  lastGood : ∀ b ∈ node.lastGoodBundle, ∃ revisionId, b.revisionId = some revisionId ∧
    ∀ hash ∈ node.bound revisionId, hash = site.digest b

variable {site : Site} {mode : Mode} {node : Node} {target : Bundle} {step : Step}
  {action revisionId hash : String} {reading : Reading} {steps : List Step} {receipt : Receipt}
  {request : Request}

theorem Readable.seen (h : Readable node step) : step.seen node = node := by
  have hseen : ∀ reading : Reading, reading.legible = true ∨ node.state = none →
      node.seen reading = node := by
    rintro reading (hlegible | hnone)
    · rw [Node.seen, if_pos hlegible]
    · rw [Node.seen, ← hnone, ite_self]
  cases step with
  | apply mode request reading fate => exact hseen reading h
  | rollback mode reading fate => exact hseen reading h
  | mutate config registry => rfl

theorem start_filed (config : Option Object) (registry : Option Registry) :
    Filed site (Node.start config registry) where
  current := by
    intro revisionId h
    cases h
  live := live_start config registry
  lastGood := by
    intro b h
    cases h

@[simp] theorem current_committed :
    (site.committed mode target action reading node).readState.currentRevisionId =
    target.revisionId := rfl

theorem bound_committed (htarget : target.revisionId = some revisionId) (other : String) :
    (site.committed mode target action reading node).bound other =
      if other = revisionId then some (site.digest target) else node.bound other := by
  have hset : (site.committed mode target action reading node).readState.revisionDigests =
      node.readState.revisionDigests.set revisionId (site.digest target) := by
    simp only [Node.readState, Site.committed, Site.nextState, State.publish,
      State.appendHistory, htarget]
    cases mode <;> cases site.kept _ node <;> rfl
  rw [Node.bound, hset, Dict.get?_set]
  rfl

theorem previous_named (env : Env) (state : State) (config : Object) (registry : Registry) :
    ∃ revisionId, (env.previous state config registry).revisionId = some revisionId := by
  simp only [Env.previous]
  split
  · exact ⟨_, rfl⟩
  next hnamed => exact Option.ne_none_iff_exists'.mp (not_or.mp hnamed).1

theorem kept_named {previous : Bundle} (h : site.kept mode node = some previous) :
    ∃ revisionId, previous.revisionId = some revisionId := by
  simp only [Site.kept] at h
  split at h
  · rw [← Option.some.inj h]
    exact previous_named site.toEnv node.readState _ _
  · cases h

section

variable (hfiled : Filed site node)
include hfiled

theorem Filed.committing (hreadable : Readable node step)
    (h : site.committing step node = some (mode, target)) :
    mode = Step.mode step ∧ target ∈ Site.asked site node step ∧
      ∃ revisionId, target.revisionId = some revisionId ∧
      ∀ hash ∈ node.bound revisionId, hash = site.digest target := by
  have hseen := hreadable.seen
  cases step with
  | mutate config registry => cases h
  | apply mode' request reading fate =>
    obtain ⟨rfl, hdecide⟩ := committing_apply h
    rw [show node.seen reading = node from hseen] at hdecide
    obtain ⟨⟨registry, hregistry, rfl⟩, hfree, -⟩ := decideApply_commit hdecide
    refine ⟨rfl, by simp [Site.asked, hregistry, Except.toOption], request.revisionId, rfl, ?_⟩
    rw [hfree]
    intro hash hhash
    cases hhash
  | rollback mode' reading fate =>
    obtain ⟨rfl, hdecide⟩ := committing_rollback h
    rw [show node.seen reading = node from hseen] at hdecide
    have hlast := decideRollback_commit hdecide
    exact ⟨rfl, hlast, hfiled.lastGood target hlast⟩

theorem Filed.kept_distinct (hproper : Proper site node step)
    (h : site.committing step node = some (mode, target)) {previous : Bundle}
    (hkept : site.kept mode node = some previous) (hid : previous.revisionId = some revisionId) :
    (target.revisionId = some revisionId → site.digest target = site.digest previous) ∧
      ∀ hash ∈ node.bound revisionId, hash = site.digest previous := by
  obtain ⟨rfl, hasked, other, hother, hown⟩ := hfiled.committing hproper.1 h
  simp only [Site.kept] at hkept
  split at hkept
  next config registry hconfig hregistry =>
    obtain rfl := Option.some.inj hkept
    have hdistinct := hproper.2 target hasked config hconfig registry hregistry
    simp only [Env.previous] at hid ⊢
    split
    next hdrift =>
      rw [if_pos hdrift] at hid
      obtain rfl := Option.some.inj hid
      exact hdistinct hdrift
    next hsame =>
      -- the files are the current revision's, whose identity is bound to them
      rw [if_neg hsame] at hid
      obtain ⟨-, hhash⟩ := not_or.mp hsame
      obtain ⟨hash, hbundle, hbound⟩ := hfiled.current revisionId hid
      rw [not_not, hbundle, Option.some.injEq] at hhash
      rw [hhash, hbound]
      refine ⟨fun htarget => ?_, fun _ hmem => (Option.some.inj hmem).symm⟩
      obtain rfl := Option.some.inj (hother.symm.trans htarget)
      exact (hown hash hbound).symm
  · cases hkept

theorem Filed.committed (hproper : Proper site node step)
    (h : site.committing step node = some (mode, target)) :
    Filed site (site.committed mode target action reading node) := by
  obtain ⟨-, -, revisionId, hid, -⟩ := hfiled.committing hproper.1 h
  refine ⟨?_, fun _ => ⟨Option.some_ne_none _, Option.some_ne_none _⟩, ?_⟩
  · intro other hother
    rw [current_committed, hid, Option.mem_def, Option.some.injEq] at hother
    subst hother
    exact ⟨site.digest target, rfl, by rw [bound_committed hid, if_pos rfl]⟩
  intro b hb
  cases hkept : site.kept mode node with
  | none =>
    -- without live files there was no last good bundle either
    have hnone : node.lastGoodBundle = some b := by simpa [Site.committed, hkept] using hb
    have hlive := hfiled.live (by simp [hnone])
    obtain h | h := kept_none hkept
    · exact absurd h hlive.1
    · exact absurd h hlive.2
  | some previous =>
    obtain rfl : previous = b := by simpa [Site.committed, hkept] using hb
    obtain ⟨other, hother⟩ := kept_named hkept
    obtain ⟨hsame, hbound⟩ := hfiled.kept_distinct hproper h hkept hother
    refine ⟨other, hother, ?_⟩
    intro hash hhash
    rw [bound_committed hid] at hhash
    split at hhash
    next heq => rw [← Option.some.inj hhash, hsame (by rw [hid, heq])]
    · exact hbound hash hhash

theorem Filed.after (hproper : Proper site node step) : Filed site (site.after step node) := by
  obtain ⟨config, registry, rfl⟩ | ⟨-, hafter, -⟩ | ⟨mode, target, action, reading, h, hafter, -⟩ :=
    next_cases site step node
  · exact ⟨hfiled.current, live_after hfiled.live, hfiled.lastGood⟩
  · rw [hafter]
    exact hfiled
  · rw [hafter, hproper.1.seen]
    exact hfiled.committed hproper h

theorem Filed.bound_after (hreadable : Readable node step) (h : node.bound revisionId = some hash) :
    (site.after step node).bound revisionId = some hash := by
  obtain ⟨config, registry, rfl⟩ | ⟨-, hafter, -⟩ |
    ⟨mode, target, action, reading, hcommit, hafter, -⟩ :=
    next_cases site step node
  · exact h
  · rw [hafter]
    exact h
  obtain ⟨-, -, other, hother, hfree⟩ := hfiled.committing hreadable hcommit
  rw [hafter, hreadable.seen, bound_committed hother]
  split
  next heq => rw [hfree hash (by rw [← heq]; exact h)]
  · exact h

theorem filed_run (hsteps : Permitted site.after (Proper site) steps node) :
    Filed site (run site.after steps node) :=
  @run_invariant _ _ site.after (Proper site) (Filed site) (fun _ _ hs hd => hs.after hd) _ _
    hfiled hsteps

theorem bound_run (hsteps : Permitted site.after (Proper site) steps node)
    (h : node.bound revisionId = some hash) :
    (run site.after steps node).bound revisionId = some hash :=
  (@run_invariant _ _ site.after (Proper site)
    (fun n => Filed site n ∧ n.bound revisionId = some hash)
    (fun _ _ hs hd => ⟨hs.1.after hd, hs.1.bound_after hd.1 hs.2⟩) _ _ ⟨hfiled, h⟩ hsteps).2

end

/-- What a step shows of revision ids: `first` is the run before it and `rest` the run after it. -/
structure WriteOnce (site : Site) (start : Node) (first : List Step) (step : Step)
    (rest : List Step) : Prop where
  /-- The digest of a revision that was applied, or rolled back to, never changes. -/
  fixed : ∀ receipt, (site.next step (run site.after first start)).1 = some (.ok receipt) →
    ∃ revisionId hash, receipt.revisionId = some revisionId ∧
      (site.after step (run site.after first start)).bound revisionId = some hash ∧
      (run site.after rest (site.after step (run site.after first start))).bound
      revisionId = some hash
  /-- A replayed revision is the one whose files are live, and they stay. -/
  replayed : ∀ mode request reading fate receipt, step = .apply mode request reading fate →
    (site.next step (run site.after first start)).1 = some (.ok receipt) → receipt.replayed = true →
      site.after step (run site.after first start) = run site.after first start ∧
        ∃ registry, validateRegistryPayload request.registry = .ok registry ∧
          (run site.after first start).config = some request.config ∧
          (run site.after first start).registry = some registry ∧
          receipt.revisionId = some request.revisionId ∧
          (run site.after first start).bound request.revisionId =
            some (site.digest (site.bundle (some request.revisionId) request.config registry))
  /-- An apply makes no earlier revision current. -/
  superseded : ∀ mode request reading fate revisionId, step = .apply mode request reading fate →
    (site.after step (run site.after first start)).readState.currentRevisionId = some revisionId →
      ∀ early late, first = early ++ late →
        (run site.after early start).readState.currentRevisionId = some revisionId →
          (run site.after first start).readState.currentRevisionId = some revisionId

theorem Filed.fixed (hfiled : Filed site node) (hreadable : Readable node step)
    (hok : (site.next step node).1 = some (.ok receipt)) :
    ∃ revisionId hash, receipt.revisionId = some revisionId ∧
    (site.after step node).bound revisionId = some hash := by
  obtain ⟨config, registry, rfl⟩ | ⟨-, hafter, hreplay⟩ |
    ⟨mode, target, action, reading, hcommit, hafter, hreceipt⟩ :=
    next_cases site step node
  · cases hok
  · obtain ⟨mode, request, reading, fate, rfl, hdecide⟩ := hreplay receipt hok
    rw [show node.seen reading = node from hreadable.seen] at hdecide
    obtain ⟨_, _, _, -, -, -, hid, -, hcurrent, -, -⟩ := decideApply_ok hdecide
    obtain ⟨hash, -, hbound⟩ := hfiled.current _ hcurrent
    exact ⟨request.revisionId, hash, hid, by rw [hafter, hbound]⟩
  · obtain ⟨-, -, revisionId, hid, -⟩ := hfiled.committing hreadable hcommit
    refine ⟨revisionId, site.digest target, by rw [(hreceipt receipt hok).1, hid], ?_⟩
    rw [hafter, bound_committed hid, if_pos rfl]

theorem Filed.replayed (hfiled : Filed site node) (hdigest : Function.Injective site.digest)
    {fate : Fate} (hreadable : Readable node (.apply mode request reading fate))
    (hok : (site.next (.apply mode request reading fate) node).1 = some (.ok receipt))
    (hreplayed : receipt.replayed = true) :
    site.after (.apply mode request reading fate) node = node ∧
      ∃ registry, validateRegistryPayload request.registry = .ok registry ∧
      node.config = some request.config ∧
        node.registry = some registry ∧ receipt.revisionId = some request.revisionId ∧
        node.bound request.revisionId =
          some (site.digest (site.bundle (some request.revisionId) request.config registry)) := by
  obtain ⟨_, _, h⟩ | ⟨-, hafter, hreplay⟩ | ⟨_, target, action, _, hcommit, hafter, hreceipt⟩ :=
    next_cases site (.apply mode request reading fate) node
  · cases h
  · refine ⟨hafter, ?_⟩
    obtain ⟨_, _, _, _, ⟨⟩, hdecide⟩ := hreplay receipt hok
    rw [show node.seen reading = node from hreadable.seen] at hdecide
    obtain ⟨config, live, registry, hconfig, hlive, hregistry, hid, -, hcurrent, hbundle, hsame⟩ :=
      decideApply_ok hdecide
    have hfiles := hdigest hsame
    obtain ⟨rfl, rfl⟩ := hfiles
    obtain ⟨hash, hhash, hbound⟩ := hfiled.current _ hcurrent
    exact ⟨live, hregistry, hconfig, hlive, hid, by rw [hbound, ← hhash, hbundle]⟩
  · cases ((hreceipt receipt hok).2).symm.trans hreplayed

theorem current_apply {fate : Fate} (hreadable : Readable node (.apply mode request reading fate))
    (h : (site.after (.apply mode request reading fate) node).readState.currentRevisionId =
      some revisionId) :
    node.readState.currentRevisionId = some revisionId ∨ node.bound revisionId = none := by
  obtain ⟨_, _, hstep⟩ | ⟨-, hafter, -⟩ | ⟨mode', target, action, reading', hcommit, hafter, -⟩ :=
    next_cases site (.apply mode request reading fate) node
  · cases hstep
  · rw [hafter] at h
    exact .inl h
  rw [hafter, current_committed] at h
  have hdecide := (committing_apply hcommit).2
  rw [show node.seen reading = node from hreadable.seen] at hdecide
  obtain ⟨⟨registry, -, rfl⟩, hfree, -⟩ := decideApply_commit hdecide
  obtain rfl := Option.some.inj h
  exact .inr hfree

theorem revision_ids_write_once (hdigest : Function.Injective site.digest) (config : Option Object)
    (registry : Option Registry) {first rest : List Step}
    (hsteps : Permitted site.after (Proper site) (first ++ step :: rest)
      (Node.start config registry)) :
    WriteOnce site (Node.start config registry) first step rest := by
  obtain ⟨hfirst, hstep, hrest⟩ := permitted_append hsteps
  have hstart : Filed site (Node.start config registry) := start_filed config registry
  have hfiled := filed_run hstart hfirst
  refine ⟨?_, ?_, ?_⟩
  · intro receipt hok
    obtain ⟨revisionId, hash, hid, hbound⟩ := hfiled.fixed hstep.1 hok
    exact ⟨revisionId, hash, hid, hbound, bound_run (hfiled.after hstep) hrest hbound⟩
  · rintro mode request reading fate receipt rfl hok hreplayed
    exact hfiled.replayed hdigest hstep.1 hok hreplayed
  · rintro mode request reading fate revisionId rfl hcurrent early late rfl hearly
    obtain ⟨hbefore, hbetween⟩ := permitted_append hfirst
    -- what was current once is bound for ever
    obtain ⟨hash, -, hbound⟩ := (filed_run hstart hbefore).current revisionId hearly
    have hstill := bound_run (filed_run hstart hbefore) hbetween hbound
    rw [← run_append] at hstill
    obtain h | hfree := current_apply hstep.1 hcurrent
    · exact h
    · cases hfree.symm.trans hstill

def requested (revisionId : String) (setting : Int) : Request where
  config := [("setting", .num setting)]
  registry := some {}
  signature := "signature"
  revisionId := revisionId

def applied (mode : Mode) (revisionId : String) (setting : Int) : Step :=
  .apply mode (requested revisionId setting) {} .success

/-- A revision is applied, the files drift, and another one is applied and taken back in runtime
mode. -/
theorem drifted_run_write_once : WriteOnce plainSite (Node.start (some []) (some {}))
    [applied .legacy "r1" 1, .mutate [("setting", .num 2)] {}, applied .runtime "r2" 3,
      .rollback .runtime {} .success]
    (applied .legacy "r1" 1) [applied .runtime "r3" 4, .rollback .legacy {} .success] :=
  revision_ids_write_once bundleCode.text_injective _ _ (by decide +kernel)

def unversioned : Node := Node.start (some []) (some {})

def localRevision : String := plainSite.localId (plainSite.bundle none [] {})

/-- A revision takes the identity of the snapshot that its own commit keeps. The rollback to this
snapshot gives the identity another digest. And where the state cannot be read, a superseded
revision is applied again. -/
theorem local_identity_rebound : Function.Injective plainSite.digest ∧
    (∃ receipt hash, (plainSite.next (applied .legacy localRevision 1) unversioned).1 =
      some (.ok receipt) ∧
      receipt.revisionId = some localRevision ∧
      (plainSite.after (applied .legacy localRevision 1) unversioned).bound
      localRevision = some hash ∧
      (run plainSite.after [applied .legacy localRevision 1, .rollback .legacy {} .success]
        unversioned).bound localRevision ≠ some hash) ∧
    ((plainSite.after (applied .legacy "r1" 1)
      unversioned).readState.currentRevisionId = some "r1" ∧
      (run plainSite.after [applied .legacy "r1" 1, applied .legacy "r2" 2]
        unversioned).readState.currentRevisionId =
        some "r2" ∧
      (run plainSite.after [applied .legacy "r1" 1, applied .legacy "r2" 2,
        .apply .legacy (requested "r1" 1) { legible := false } .success]
        unversioned).readState.currentRevisionId =
        some "r1") := by
  refine ⟨bundleCode.text_injective, ⟨_, _, rfl, rfl, rfl, ?_⟩, ?_⟩ <;> decide +kernel

end NodeManager.RevisionIds
