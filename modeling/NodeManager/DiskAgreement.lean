import NodeManager.CrashAtomicity
import NodeManager.HostedCommits

namespace NodeManager.DiskAgreement

open Programs Runs RuntimeCore Publication PublicationWorld PublicationOutline CrashInvariant
  Hosting HostedPrograms HostedRecovery HostedCommits
open FencePrograms (reads)
open FenceSafety (plainSchema plainCodec toTrue)

variable {Config Content : Type} {schema : Schema Config Content} {process : Owner}
  {host : Host Config} {codec : Codec Config} {h h' : Hosted Config Content}
  {commit : Commit Config} {call : Call Config}

/-- What the callers of `commit_files` write to the config file is the configuration they
publish. -/
def Faithful (host : Host Config) (commit : Commit Config) : Prop :=
  ∃ data, commit.targets.get? host.path = some data ∧ host.load data = some commit.config

def Call.faithful (host : Host Config) : Call Config → Prop
  | .commit commit | .commitPrepared commit => Faithful host commit
  | .recover => True

structure Rested (schema : Schema Config Content) (host : Host Config)
    (h : Hosted Config Content) : Prop where
  sane : Sane h
  journal : h.world.disk.journal = none
  harmless : AllHarmless schema h
  agreed : diskContent schema host h.world.disk = some h.world.core.content

/-- A publication has begun: the files are those of a commit that may have been stopped, the core
that of its transaction. -/
def Begun (schema : Schema Config Content) (process : Owner) (host : Host Config)
    (codec : Codec Config) (h : Hosted Config Content) : Prop :=
  ∃ commit disk₀ previous base, Faithful host commit ∧
    diskContent schema host disk₀ = some previous ∧
    Crashed process codec commit disk₀ base h.world ∧
    Invariant schema host ⟨previous, commit.config, base⟩ h

def Consistent (schema : Schema Config Content) (process : Owner) (host : Host Config)
    (codec : Codec Config) (h : Hosted Config Content) : Prop :=
  Disturbed h ∨ Rested schema host h ∨ Begun schema process host codec h

abbrev Upholds {α : Type} (schema : Schema Config Content) (process : Owner) (host : Host Config)
    (codec : Codec Config) (p : Agent Config α) (h : Hosted Config Content) : Prop :=
  Maintains (hosting schema process host) (Consistent schema process host codec) p h

abbrev Abides (schema : Schema Config Content) (process : Owner) (host : Host Config)
    (codec : Codec Config) (P : Hosted Config Content → Prop) : Prop :=
  Durable (hosting schema process host) (Consistent schema process host codec) P

theorem diskContent_afterFiles {disk₀ disk : Disk Config} (hf : Faithful host commit)
    (hfiles : disk.files = afterFiles process commit disk₀.files) :
    diskContent schema host disk = schema.configObject commit.config := by
  obtain ⟨data, hdata, hload⟩ := hf
  simp only [diskContent, hfiles, afterFiles, hdata, Option.bind_some, hload]

theorem rested_of_begun (hb : Begun schema process host codec h)
    (hnone : h.world.disk.journal = none) (hd : ¬ Disturbed h) : Rested schema host h := by
  obtain ⟨commit, disk₀, previous, base, hf, hprevious, hcrashed, hinvariant⟩ := hb
  rcases hinvariant with ⟨journal, hp⟩ | ⟨_, hdisturbed⟩ | hc
  · cases hnone.symm.trans hp.stored
  · exact absurd hdisturbed hd
  refine ⟨hc.sane, hnone, hc.harmless, ?_⟩
  rcases hcrashed with ⟨journal, hi, _⟩ | hfinished
  · cases hnone.symm.trans hi.1
  rcases hc.content with hagreed | ⟨htarget, hold⟩
  · exact hagreed
  by_cases hproved : TargetProved base h.world
  · rw [diskContent_afterFiles hf (hfinished.after hproved).files]
    exact htarget hproved
  · rw [diskContent, (hfinished.before hproved).files, hold hproved]
    exact hprevious

theorem safe_volatile {α : Type} {C : World Config Content → Prop}
    {Q : α → World Config Content → Prop} {E : Failure → World Config Content → Prop}
    {p : Agent Config α} (hp : Safe (volatile schema process) C Q E p h.world) :
    Safe (hosting schema process host) (fun h => C h.world) (fun a h => Q a h.world)
    (fun e h => E e h.world) p h := by
  refine Safe.lift Hosted.world id (fun _ _ _ => ⟨rfl, rfl⟩) ?_ hp
  intro event h
  cases event with
  | inl event => exact ⟨.inl event, rfl⟩
  | inr instanceId =>
    refine ⟨.inr (h.restart schema host instanceId).world.core, ?_⟩
    change (h.restart schema host instanceId).world = { h.world with
      core := (h.restart schema host instanceId).world.core }
    unfold Hosted.restart
    split
    · rfl
    · split_ifs <;> rfl

theorem disturbed_closed {α : Type} (p : Agent Config α) (hd : Disturbed h) :
    Upholds schema process host codec p h := by
  refine (@Safe.of_closed _ _ _ _ _ (hosting schema process host) Disturbed h ?_ ?_ p hd).mono
    (fun _ hd => Or.inl hd) (fun _ _ hd => Or.inl hd) (fun _ _ hd => Or.inl hd)
  · rintro choice op h ⟨removal, hm, hunsound⟩
    refine ⟨removal, ?_, hunsound⟩
    cases op with
    | removeJournal =>
      cases choice with
      | fail failure => exact hm
      | _ => exact List.mem_cons_of_mem _ hm
    | _ => exact hm
  · intro event h hd
    rw [Disturbed, (HostedPrograms.env_frame event h).2.2]
    exact hd

theorem Rested.idle (hr : Rested schema host h) (config : Config) :
    Idle schema host ⟨h.world.core.content, config, h.world.settled⟩ h :=
  ⟨hr.sane, hr.journal, hr.harmless, hr.agreed, rfl, rfl⟩

theorem Rested.moved (hr : Rested schema host h) (hm : Moved schema host h h') :
    Rested schema host h' := by
  refine ⟨hm.sane, hm.disk ▸ hr.journal, AllHarmless.moved hr.harmless hr.sane hm.toAdvanced, ?_⟩
  rw [hm.disk]
  by_cases hretired : h'.retired = h.retired
  · rw [(hm.kept hretired).2 hr.harmless]
    exact hr.agreed
  · exact (hm.started hretired).2

instance durable_rested : Abides schema process host codec (Rested schema host) :=
  durable_of_moved (fun _ hr => hr.sane) (fun _ _ hr hm => hr.moved hm)
    (fun _ hr => Or.inr (Or.inl hr))

instance durable_begun : Abides schema process host codec (Begun schema process host codec) := by
  refine ⟨?_, fun _ hb => Or.inr (Or.inr hb)⟩
  rintro event h ⟨commit, disk₀, previous, base, hf, hprevious, hcrashed, hinvariant⟩
  obtain ⟨hdisk, hsettled, _⟩ := @HostedPrograms.env_frame _ _ schema process host event h
  exact ⟨commit, disk₀, previous, base, hf, hprevious, hcrashed.congr hdisk hsettled,
    durable_invariant.stable event h hinvariant⟩

instance durable_consistent : Abides schema process host codec
    (Consistent schema process host codec) := by
  refine ⟨?_, fun _ hc => hc⟩
  rintro event h (hd | hr | hb)
  · left
    rw [Disturbed, (HostedPrograms.env_frame event h).2.2]
    exact hd
  · exact Or.inr (Or.inl (hr.moved (hr.sane.env event)))
  · exact Or.inr (Or.inr (durable_begun.stable event h hb))

def Blocking (schema : Schema Config Content) (process : Owner) (host : Host Config)
    (codec : Codec Config) (h : Hosted Config Content) : Prop :=
  Begun schema process host codec h ∧ h.world.disk.journal.isSome = true

instance durable_blocking : Abides schema process host codec (Blocking schema process host codec) :=
  durable_begun.and (fun event h hsome => by rw [(HostedPrograms.env_frame event h).1]; exact hsome)

theorem keeps_blocking {op : Op Config} (hr : reads op = true) :
    Keeps (hosting schema process host) (Consistent schema process host codec)
    (Blocking schema process host codec) op :=
  fun _ hb => Safe.ask_reading op (hosting_reads hr) hb (fun _ => durable_blocking.crash)
    (fun _ _ _ hb _ => hb)

theorem safe_blocked (commit : Commit Config) (hb : Blocking schema process host codec h) :
    Upholds schema process host codec (commitFiles codec commit) h := by
  refine safe_commitFiles_blocked ?_
  refine Safe.ask_reading Op.journalExists (hosting_reads rfl) hb
    (fun _ => durable_blocking.crash) ?_
  intro choice h pending hb hok
  cases hok
  exact ⟨hb.2, durable_blocking.crash h hb⟩

theorem safe_recover_rested (hr : Rested schema host h) :
    Upholds schema process host codec (recoverLocked codec) h := by
  refine safe_recoverLocked_idle ?_
  refine Safe.ask_reading Op.journalExists (hosting_reads rfl) hr (fun _ => durable_rested.crash) ?_
  intro choice h pending hr hok
  cases hok
  rw [hr.journal]
  exact ⟨rfl, durable_rested.crash h hr⟩

theorem consistent_of_begun {disk₀ : Disk Config} {previous : Content}
    {base : List (Settlement Content)} (hf : Faithful host commit)
    (hprevious : diskContent schema host disk₀ = some previous) : ∀ h : Hosted Config Content,
    Crashed process codec commit disk₀ base h.world ∧
    Invariant schema host ⟨previous, commit.config, base⟩ h →
      Consistent schema process host codec h := by
  rintro h ⟨hcrashed, hinvariant⟩
  exact Or.inr (Or.inr ⟨commit, disk₀, previous, base, hf, hprevious, hcrashed, hinvariant⟩)

theorem rested_of_idle {t : Transaction Config Content} (hi : Idle schema host t h) :
    Rested schema host h :=
  ⟨hi.sane, hi.journal, hi.harmless, hi.disk.trans (congrArg some hi.content.symm)⟩

section

variable (hinjective : Function.Injective schema.fingerprint)
include hinjective

theorem safe_commit {commit : Commit Config} (hf : Faithful host commit) (hr : Rested schema host h)
    (hs : Starting schema host ⟨h.world.core.content, commit.config, h.world.settled⟩ commit h) :
    Upholds schema process host codec (commitFiles codec commit) h := by
  have hfiles := @CrashAtomicity.safe_commitFiles _ _ schema h.world
    ⟨process, codec, commit, h.world.disk, h.world.settled⟩ ⟨hr.journal⟩ ⟨rfl, rfl⟩
  have hcore := @HostedCommits.safe_commitFiles _ _ schema process host codec h _ hinjective
    commit rfl hs
  have hbegun := @consistent_of_begun _ _ schema process host codec commit _ _ h.world.settled
    hf hr.agreed
  exact ((safe_volatile hfiles).and hcore).mono hbegun (fun _ => hbegun) (fun _ => hbegun)

theorem safe_recover (hb : Begun schema process host codec h) :
    Upholds schema process host codec (recoverLocked codec) h := by
  obtain ⟨commit, disk₀, previous, base, hf, hprevious, hcrashed, hinvariant⟩ := hb
  have hcore := (hostedOutline hinjective process host codec
    ⟨previous, commit.config, base⟩).course.safe_recoverLocked hinvariant
  have hbegun := @consistent_of_begun _ _ schema process host codec commit _ _ base hf hprevious
  have hfiles := (CrashRecovery.crashCourse schema
    ⟨process, codec, commit, disk₀, base⟩).safe_recoverLocked hcrashed
  exact ((safe_volatile hfiles).and hcore).mono hbegun (fun _ => hbegun) (fun _ => hbegun)

theorem safe_commitPrepared (hf : Faithful host commit) (hr : Rested schema host h) :
    Upholds schema process host codec ((Call.commitPrepared commit).program codec) h := by
  have hfiles := @CrashAtomicity.safe_prepare _ _ schema process h.world
    ⟨process, codec, commit, h.world.disk, h.world.settled⟩ ⟨hr.journal⟩ ⟨rfl, rfl⟩
    commit.previousConfig commit.config
  have hcore := @HostedCommits.safe_prepare _ _ schema process host h _ commit.previousConfig
    (hr.idle commit.config)
  have hbegun := @consistent_of_begun _ _ schema process host codec commit _ _ h.world.settled
    hf hr.agreed
  apply Safe.seq (((safe_volatile hfiles).and hcore).mono hbegun (fun _ _ hready => hready.2)
    (fun _ => hbegun))
  intro prepared h' hready
  have hstart : Ready schema host ⟨h'.world.core.content, commit.config, h'.world.settled⟩
      prepared h' := by
    rw [hready.idle.content, hready.idle.settled]
    exact hready
  apply Safe.seq (@safe_commit _ _ schema process host codec h' hinjective { commit with
    prepared := some prepared } hf (rested_of_idle hready.idle) hstart)
  intro _ h hc
  exact Safe.ret hc

theorem safe_call_rested (hf : Call.faithful host call) (hr : Rested schema host h) :
    Upholds schema process host codec (call.program codec) h := by
  cases call with
  | commit commit =>
    exact Safe.seq_pure (@safe_commit _ _ schema process host codec h hinjective { commit with
      prepared := none } hf hr (hr.idle commit.config))
  | commitPrepared commit => exact safe_commitPrepared hinjective hf hr
  | recover =>
    exact Safe.seq_pure (safe_recover_rested hr)

theorem safe_call_blocking (call : Call Config) (hb : Blocking schema process host codec h) :
    Upholds schema process host codec (call.program codec) h := by
  cases call with
  | commit commit =>
    exact Safe.seq_pure (safe_blocked _ hb)
  | commitPrepared commit =>
    apply Safe.seq (safe_prepare_kept (keeps_blocking rfl)
      (fun config => keeps_blocking rfl) hb)
    intro prepared h hb
    exact Safe.seq_pure (safe_blocked _ hb)
  | recover =>
    exact Safe.seq_pure (safe_recover hinjective hb.1)

theorem safe_call (hf : Call.faithful host call) (hc : Consistent schema process host codec h) :
    Upholds schema process host codec (call.program codec) h := by
  by_cases hd : Disturbed h
  · exact disturbed_closed _ hd
  rcases hc with hd' | hr | hb
  · exact absurd hd' hd
  · exact safe_call_rested hinjective hf hr
  cases hj : h.world.disk.journal with
  | none => exact safe_call_rested hinjective hf (rested_of_begun hb hj hd)
  | some journal => exact safe_call_blocking hinjective call ⟨hb, by rw [hj]; rfl⟩

end

def hostedHistory (schema : Schema Config Content) (process : Owner) (host : Host Config)
    (codec : Codec Config) (calls : List
      (Call Config × List (Action (hosting schema process host)))) (h : Hosted Config Content) :
    Hosted Config Content :=
  run (session (hosting schema process host))
    (calls.map (fun call => (call.1.program codec, call.2))) h

theorem consistent_history (hinjective : Function.Injective schema.fingerprint)
    {calls : List (Call Config × List (Action (hosting schema process host)))}
    (hfaithful : ∀ call ∈ calls, Call.faithful host call.1)
    (hc : Consistent schema process host codec h) :
    Consistent schema process host codec (hostedHistory schema process host codec calls h) := by
  refine session_invariant ?_ hc
  intro s hs h hc
  obtain ⟨call, hcall, rfl⟩ := List.mem_map.mp hs
  exact safe_call hinjective (hfaithful call hcall) hc

/-- If the core was not started from another config file than that of the outcome between the proof
and the removal of the journal, then the core has the content of the config file whenever no journal
is left. -/
theorem disk_and_core_agree (schema : Schema Config Content) (process : Owner) (host : Host Config)
    (codec : Codec Config) (hinjective : Function.Injective schema.fingerprint)
    (calls : List (Call Config × List (Action (hosting schema process host))))
    (hfaithful : ∀ call ∈ calls, Call.faithful host call.1) (h : Hosted Config Content)
    (hrevision : h.world.core.revision ≤ revisionBound)
    (hlive : h.world.core.instanceId ∉ h.retired) (hflight : h.world.flight = [])
    (hjournal : h.world.disk.journal = none)
    (hagreed : diskContent schema host h.world.disk = some h.world.core.content)
    (hsound : ∀ removal ∈ (hostedHistory schema process host codec calls h).removals,
    removal.sound = true) (hnone :
    (hostedHistory schema process host codec calls h).world.disk.journal = none) :
    diskContent schema host (hostedHistory schema process host codec calls h).world.disk =
      some (hostedHistory schema process host codec calls h).world.core.content := by
  have hsane : Sane h := by
    refine ⟨hrevision, hlive, ?_⟩
    rw [hflight]
    exact nofun
  have hstart : Rested schema host h := by
    refine ⟨hsane, hjournal, ?_, hagreed⟩
    rw [AllHarmless, hflight]
    exact nofun
  have hd : ¬ Disturbed (hostedHistory schema process host codec calls h) := by
    rintro ⟨removal, hm, hunsound⟩
    exact absurd (hsound removal hm) (Bool.eq_false_iff.mp hunsound)
  rcases consistent_history hinjective hfaithful (Or.inr (Or.inl hstart)) with hd' | hr | hb
  · exact absurd hd' hd
  · exact hr.agreed
  · exact (rested_of_begun hb hnone hd).agreed

def boolHost : Host Bool := ⟨"config.json", fun data => if data = "true" then some true
    else if data = "false" then some false else none⟩

def agreedNode : Hosted Bool Bool where
  world :=
    { core := { instanceId := "i", revision := 0, content := false }
      flight := []
      disk :=
        { files := fun path => if path = "config.json" then some ⟨"false", 0o600, (0, 0)⟩ else none
          current := none
          journal := none }
      socket := "/run/core.sock"
      settled := [] }
  retired := []
  booted := none
  removals := []

theorem faithful_toTrue : Faithful boolHost toTrue := ⟨"true", rfl, rfl⟩

def filesWritten : List (Action (hosting plainSchema (0, 0) boolHost)) :=
  calls (List.replicate 7 .proceed ++ List.replicate 3 (.merged ⟨[], List.nodup_nil⟩) ++
    List.replicate 3 .proceed)

def restartedEarly : List (Action (hosting plainSchema (0, 0) boolHost)) :=
  filesWritten.append (.env (.inr "j") ::
    calls (List.replicate 4 .proceed ++ [.merged ⟨[], List.nodup_nil⟩] ++
      List.replicate 5 .proceed))

def restartedNode : Hosted Bool Bool :=
  hostedHistory plainSchema (0, 0) boolHost plainCodec [(.commit toTrue, restartedEarly)] agreedNode

theorem early_restart_agrees : restartedNode.world.core =
    { instanceId := "j", revision := 0, content := true } ∧
      diskContent plainSchema boolHost restartedNode.world.disk =
      some restartedNode.world.core.content :=
  ⟨by decide +kernel, disk_and_core_agree plainSchema (0, 0) boolHost plainCodec
    FenceSafety.plainSchema_injective [(.commit toTrue, restartedEarly)]
    (List.forall_mem_singleton.mpr faithful_toTrue) agreedNode (by decide) List.not_mem_nil rfl rfl
    rfl (by decide +kernel) (Option.isNone_iff_eq_none.mp (by decide +kernel))⟩

/-- The PUT is lost, the fence proves the old content, and the core restarts before the old file is
back. -/
def restartedLate : List (Action (hosting plainSchema (0, 0) boolHost)) :=
  filesWritten.append (List.append (calls (.fail .unavailable :: List.replicate 4 .proceed))
    (.env (.inr "j") :: calls (List.replicate 5 .proceed)))

theorem late_restart_disagrees :
    Faithful boolHost toTrue ∧
      diskContent plainSchema boolHost agreedNode.world.disk = some agreedNode.world.core.content ∧
      let final := run (advance (hosting plainSchema (0, 0) boolHost)) restartedLate
        (commitFiles plainCodec toTrue, agreedNode)
      final.1.error? = some (.config "runtime update rejected; previous files restored") ∧
        final.2.world.disk.journal.isNone = true ∧
        diskContent plainSchema boolHost final.2.world.disk = some false ∧
        final.2.world.core.content = true :=
  ⟨faithful_toTrue, rfl, by decide +kernel⟩

end NodeManager.DiskAgreement
