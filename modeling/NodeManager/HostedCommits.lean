import NodeManager.FenceSafety
import NodeManager.HostedRecovery

namespace NodeManager.HostedCommits

open Programs RuntimeCore Publication PublicationWorld PublicationOutline Hosting HostedPrograms
  HostedRecovery
open FencePrograms (unlessFailed_ok instanceId_ne_empty_of_valid)
open FenceSafety (preview_ok)

variable {Config Content : Type} {schema : Schema Config Content} {process : Owner}
  {host : Host Config} {codec : Codec Config} {journal : Journal Config}
  {h h' : Hosted Config Content} {t : Transaction Config Content} {commit : Commit Config}

structure Idle (schema : Schema Config Content) (host : Host Config)
    (t : Transaction Config Content) (h : Hosted Config Content) : Prop where
  sane : Sane h
  journal : h.world.disk.journal = none
  harmless : AllHarmless schema h
  disk : diskContent schema host h.world.disk = some t.previous
  content : h.world.core.content = t.previous
  settled : h.world.settled = t.base

theorem Idle.moved (hi : Idle schema host t h) (hm : Moved schema host h h') :
    Idle schema host t h' := by
  refine ⟨hm.sane, hm.disk ▸ hi.journal, AllHarmless.moved hi.harmless hi.sane hm.toAdvanced,
    hm.disk ▸ hi.disk, ?_, hm.settled ▸ hi.settled⟩
  by_cases hretired : h'.retired = h.retired
  · exact ((hm.kept hretired).2 hi.harmless).trans hi.content
  · exact Option.some.inj ((hm.started hretired).2.symm.trans hi.disk)

theorem Idle.invariant (hi : Idle schema host t h) : Invariant schema host t h :=
  Or.inr (Or.inr ⟨hi.sane, hi.journal, hi.harmless,
    Or.inl (hi.disk.trans (congrArg some hi.content.symm))⟩)

instance durable_idle : Lasts schema process host t (Idle schema host t) :=
  durable_of_moved (fun _ hi => hi.sane) (fun _ _ hi hm => hi.moved hm) (fun _ hi => hi.invariant)

structure Ready (schema : Schema Config Content) (host : Host Config)
    (t : Transaction Config Content) (prepared : Prepared) (h : Hosted Config Content) : Prop where
  idle : Idle schema host t h
  expected : Known h prepared.expected
  previous : schema.fingerprint t.previous = prepared.previousHash
  target : ∃ after, schema.configObject t.config = some after ∧
    schema.fingerprint after = prepared.targetHash

theorem Ready.moved {prepared : Prepared} (hr : Ready schema host t prepared h)
    (hm : Moved schema host h h') :
    Ready schema host t prepared h' :=
    ⟨hr.idle.moved hm, hr.expected.onward hm.onward, hr.previous, hr.target⟩

instance durable_ready (prepared : Prepared) :
    Lasts schema process host t (Ready schema host t prepared) :=
  durable_of_moved (fun _ hr => hr.idle.sane) (fun _ _ hr hm => hr.moved hm)
    (fun _ hr => hr.idle.invariant)

theorem preview_named {config : Config} {w : World Config Content} {choice : Choice}
    {preview : Preview} (hok : (respond schema process choice (.preview config) w).1 =
      .ok preview) :
    preview.runtime.instanceId ≠ "" := by
  simp only [respond] at hok
  split at hok
  · have hvalid := unlessFailed_ok hok
    unfold validatePreview at hvalid
    split_ifs at hvalid with hstatus
    cases hvalid
    exact instanceId_ne_empty_of_valid hstatus.1
  · cases unlessFailed_ok hok

structure Previewed (schema : Schema Config Content) (host : Host Config)
    (t : Transaction Config Content) (old : Preview) (h : Hosted Config Content) : Prop where
  idle : Idle schema host t h
  known : Known h old.runtime
  hash : old.runtime.contentHash = schema.fingerprint t.previous

instance durable_previewed (old : Preview) :
    Lasts schema process host t (Previewed schema host t old) :=
  durable_of_moved (fun _ hp => hp.idle.sane)
    (fun _ _ hp hm => ⟨hp.idle.moved hm, hp.known.onward hm.onward, hp.hash⟩)
    (fun _ hp => hp.idle.invariant)

theorem safe_prepare {previous : Config} (hi : Idle schema host t h) :
    Leaves schema process host t (Ready schema host t) (prepare previous t.config) h := by
  apply Safe.seq (safe_ignored .checkMode rfl hi)
  intro _ h hi
  apply Safe.seq (Q := Previewed schema host t)
  · apply safe_reading (.preview previous) rfl hi (fun _ _ hi => hi.invariant)
    intro choice h old hi hok
    obtain ⟨hruntime, hlt, _⟩ := preview_ok hok
    have hnamed := preview_named hok
    refine ⟨hi, ?_, ?_⟩
    · rw [hruntime] at hnamed ⊢
      exact ⟨hnamed, hlt, Or.inr ⟨rfl, Nat.le_refl _⟩⟩
    · rw [hruntime]
      exact congrArg schema.fingerprint hi.content
  intro old h hp
  apply Safe.seq (Q := fun target h => Previewed schema host t old h ∧
    ∃ after, schema.configObject t.config = some after ∧
    schema.fingerprint after = target.contentHash)
  · apply safe_reading (.preview t.config) rfl hp (fun _ _ hp => hp.idle.invariant)
    intro choice h target hp hok
    exact ⟨hp, (preview_ok hok).2.2⟩
  rintro target h ⟨hp, htarget⟩
  split_ifs with hdrift
  · exact Safe.raise hp.idle.invariant
  · exact Safe.raise hp.idle.invariant
  apply Safe.seq (safe_ignored .checkMode rfl hp)
  intro socket h hp
  have hsame : old.runtime.contentHash = old.contentHash := by
    by_contra hne
    exact hdrift (Or.inr hne)
  exact Safe.ret ⟨hp.idle, hp.known, hp.hash.symm.trans hsame, htarget⟩

instance reading_ready (prepared : Prepared) :
    Reading (hosting schema process host) (Invariant schema host t)
    (Ready schema host t prepared) where
  capture file _ hr := safe_ignored (.capture file) rfl hr
  readAliases _ hr := safe_ignored .readAliases rfl hr
  mergeAliases other aliases _ hr := safe_ignored (.mergeAliases other aliases) rfl hr

theorem safe_writeJournal (hconfig : journal.config = t.config)
    (hr : Ready schema host t journal.prepared h) :
    Leaves schema process host t (fun _ => Pending schema t journal)
    (ask (.writeJournal journal)) h := by
  have hwritten : ∀ h, Ready schema host t journal.prepared h →
      Pending schema t journal { h with
        world := { h.world with disk := h.world.disk.setJournal (some journal) } } := by
    intro h hr
    refine ⟨⟨hr.idle.sane.bounded, hr.idle.sane.live, ?_⟩, rfl, hconfig, hr.target, hr.previous,
      ⟨hr.expected.named, hr.expected.bounded, hr.expected.reached⟩,
      fun request hm => Or.inl (hr.idle.harmless request hm), [], hr.idle.settled⟩
    intro request hm
    have hk := hr.idle.sane.flight request hm
    exact { hk with }
  refine Safe.ask_writing (Op.writeJournal journal) hr (fun _ h hr => hr.idle.invariant)
    (fun _ h hp => Or.inl ⟨journal, hp⟩) (fun choice h hr => ?_)
  refine (write_cases (Disk.setJournal (some journal)) h.world choice).imp (fun heq => ?_)
    (fun ⟨heq, hfailed⟩ => ?_)
  · change Pending schema t journal { h with world := (h.world.write _ choice).2 }
    rw [heq]
    exact hwritten h hr
  · exact ⟨congrArg (fun w => { h with world := w }) heq, hfailed⟩

def Starting (schema : Schema Config Content) (host : Host Config) (t : Transaction Config Content)
    (commit : Commit Config) (h : Hosted Config Content) : Prop :=
  match commit.prepared with
  | none => Idle schema host t h
  | some prepared => Ready schema host t prepared h

instance durable_starting (commit : Commit Config) :
    Lasts schema process host t (Starting schema host t commit) := by
  unfold Starting
  cases commit.prepared with
  | none => exact durable_idle
  | some prepared => exact durable_ready prepared

theorem idle_of_starting (hs : Starting schema host t commit h) : Idle schema host t h := by
  unfold Starting at hs
  split at hs
  · exact hs
  · exact hs.idle

theorem safe_preparedFor (hconfig : commit.config = t.config)
    (hs : Starting schema host t commit h) :
    Leaves schema process host t (Ready schema host t) (preparedFor commit) h := by
  unfold preparedFor
  unfold Starting at hs
  cases hprepared : commit.prepared with
  | none =>
    rw [hprepared] at hs
    rw [hconfig]
    exact safe_prepare hs
  | some prepared =>
    rw [hprepared] at hs
    exact Safe.ret hs

theorem safe_commitFiles (hinjective : Function.Injective schema.fingerprint)
    {commit : Commit Config} (hconfig : commit.config = t.config)
    (hs : Starting schema host t commit h) :
    Maintains (hosting schema process host) (Invariant schema host t)
    (commitFiles codec commit) h := by
  refine (hostedOutline hinjective process host codec t).course.safe_commitFiles
    (safe_openJournal (fun _ hi => safe_ignored .journalExists rfl hi) ?_
      (fun _ hs => safe_preparedFor hconfig hs)
      (fun journal _ hjournal _ hr => safe_writeJournal (hjournal.trans hconfig) hr))
  apply safe_reading .journalExists rfl hs (fun _ _ hs => (idle_of_starting hs).invariant)
  intro choice h pending hs hok
  cases hok
  rw [(idle_of_starting hs).journal]
  exact Or.inr ⟨rfl, hs⟩

end NodeManager.HostedCommits
