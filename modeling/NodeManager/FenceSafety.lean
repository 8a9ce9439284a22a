import NodeManager.FenceRecovery

namespace NodeManager.FenceSafety

open Programs Runs RuntimeCore Publication PublicationWorld PublicationOutline FenceInvariant
  FencePrograms FenceRecovery

variable {Config Content : Type} {schema : Schema Config Content} {process : Owner}
  {codec : Codec Config} {journal : Journal Config} {w : World Config Content}
  {commit : Commit Config}

def Idle (schema : Schema Config Content) (w : World Config Content) : Prop :=
  Coherent schema w ∧ w.disk.journal = none

instance durable_idle : Lasts schema process (Idle schema) := by
  refine ⟨?_, fun _ hw => hw.1⟩
  rintro event w ⟨hw, hj⟩
  exact ⟨hw.occur event, (congrArg Disk.journal (disk_occur hw event)).trans hj⟩

def Ready (schema : Schema Config Content) (config : Config) (prepared : Prepared)
    (w : World Config Content) : Prop :=
  Idle schema w ∧ Sound schema w.core config prepared

instance durable_sound {P : World Config Content → Prop} [hd : Lasts schema process P]
    (config : Config) (prepared : Prepared) :
    Lasts schema process (fun w => P w ∧ Sound schema w.core config prepared) := by
  refine ⟨?_, fun w hw => hd.crash w hw.1⟩
  rintro event w ⟨hw, hs⟩
  exact ⟨hd.stable event w hw, hs.later (later_occur (hd.crash w hw) event).1⟩

instance durable_ready (config : Config) (prepared : Prepared) :
    Lasts schema process (Ready schema config prepared) :=
  durable_sound config prepared

def Reached (P : World Config Content → Prop) (old : Preview) (w : World Config Content) : Prop :=
  P w ∧ old.runtime.revision ≤ w.core.revision ∧ old.runtime.revision < revisionBound

instance durable_reached {P : World Config Content → Prop} [hd : Lasts schema process P]
    (old : Preview) :
    Lasts schema process (Reached P old) := by
  refine ⟨?_, fun w hw => hd.crash w hw.1⟩
  rintro event w ⟨hw, hle, hlt⟩
  exact ⟨hd.stable event w hw, Nat.le_trans hle (later_occur (hd.crash w hw) event).1.le, hlt⟩

theorem preview_ok {config : Config} {choice : Choice} {preview : Preview}
    (hok : (respond schema process choice (.preview config) w).1 = .ok preview) :
    preview.runtime = w.core.status schema ∧ w.core.revision < revisionBound ∧
      ∃ after, schema.configObject config = some after ∧
      schema.fingerprint after = preview.contentHash := by
  simp only [respond, previewUserUpdate] at hok
  cases hafter : schema.configObject config with
  | none =>
    rw [hafter] at hok
    cases unlessFailed_ok hok
  | some after =>
    rw [hafter] at hok
    have hvalid := unlessFailed_ok hok
    unfold validatePreview at hvalid
    split_ifs at hvalid with hstatus
    cases hvalid
    obtain ⟨_, hlt⟩ := validateStatus_ok (if_pos hstatus.1)
    exact ⟨rfl, hlt, after, rfl, rfl⟩

theorem safe_prepare {previous desired : Config} {P : World Config Content → Prop}
    [hd : Lasts schema process P] (hw : P w) :
    Leaves schema process (fun prepared w => P w ∧ Sound schema w.core desired prepared)
    (prepare previous desired) w := by
  apply Safe.seq (safe_ignored .checkMode rfl hw)
  intro _ w hw
  apply Safe.seq (Q := Reached P)
  · apply safe_reading (.preview previous) rfl (fun _ w hw => hd.crash w hw) hw
    intro choice w old hw hok
    obtain ⟨hruntime, hlt, _⟩ := preview_ok hok
    rw [Reached, hruntime]
    exact ⟨hw, Nat.le_refl _, hlt⟩
  intro old w hw
  apply Safe.seq (Q := fun target w => Reached P old w ∧
    ∃ after, schema.configObject desired = some after ∧
    schema.fingerprint after = target.contentHash)
  · apply safe_reading (.preview desired) rfl (fun _ w hw => hd.crash w hw.1) hw
    intro choice w target hw hok
    exact ⟨hw, (preview_ok hok).2.2⟩
  rintro target w ⟨hw, htarget⟩
  split_ifs
  · exact Safe.raise (hd.crash w hw.1)
  · exact Safe.raise (hd.crash w hw.1)
  apply Safe.seq (safe_ignored .checkMode rfl hw)
  intro socket w hw
  exact Safe.ret ⟨hw.1, htarget, hw.2.1, hw.2.2⟩

instance reading_ready (config : Config) (prepared : Prepared) :
    Reading (network schema process) (Coherent schema) (Ready schema config prepared) where
  capture file _ hw := safe_ignored (.capture file) rfl hw
  readAliases _ hw := safe_ignored .readAliases rfl hw
  mergeAliases other aliases _ hw := safe_ignored (.mergeAliases other aliases) rfl hw

theorem safe_writeJournal (hw : Ready schema journal.config journal.prepared w) :
    Leaves schema process (fun _ => Pending schema journal) (ask (.writeJournal journal)) w := by
  have hwritten : ∀ w, Ready schema journal.config journal.prepared w →
      Pending schema journal { w with disk := w.disk.setJournal (some journal) } := by
    rintro w ⟨⟨hw, hnone⟩, hs⟩
    refine ⟨⟨hw.bounded, hw.flight, ?_, ?_, hw.settled⟩, rfl⟩
    · intro request hr
      rcases hw.pending request hr with hi | ⟨other, hother, _⟩
      · exact Or.inl hi
      · cases hnone.symm.trans hother
    · rintro other ⟨⟩
      exact hs
  refine Safe.ask_writing (Op.writeJournal journal) hw (fun _ w hw => hw.1.1) (fun _ w hw => hw.1)
    (fun choice w hw => ?_)
  refine (write_cases _ w choice).imp_left (fun heq => ?_)
  change Pending schema journal (w.write _ choice).2
  rw [heq]
  exact hwritten w hw

def Known (schema : Schema Config Content) (commit : Commit Config)
    (w : World Config Content) : Prop :=
  Coherent schema w ∧ ∀ prepared, commit.prepared = some prepared →
    Sound schema w.core commit.config prepared

instance durable_known (commit : Commit Config) : Lasts schema process (Known schema commit) := by
  refine ⟨?_, fun _ hw => hw.1⟩
  rintro event w ⟨hw, hprepared⟩
  exact ⟨hw.occur event, fun prepared hp => (hprepared prepared hp).later (later_occur hw event).1⟩

def Starting (schema : Schema Config Content) (commit : Commit Config)
    (w : World Config Content) : Prop :=
  Idle schema w ∧ ∀ prepared, commit.prepared = some prepared →
    Sound schema w.core commit.config prepared

instance durable_starting (commit : Commit Config) :
    Lasts schema process (Starting schema commit) :=
  ⟨fun event w hw => ⟨durable_idle.stable event w hw.1,
    ((durable_known commit).stable event w ⟨hw.1.1, hw.2⟩).2⟩, fun _ hw => hw.1.1⟩

theorem safe_preparedFor (hw : Starting schema commit w) :
    Leaves schema process (fun prepared => Ready schema commit.config prepared)
    (preparedFor commit) w := by
  unfold preparedFor
  cases hp : commit.prepared with
  | none => exact safe_prepare hw.1
  | some prepared => exact Safe.ret ⟨hw.1, hw.2 prepared hp⟩

theorem safe_journalExists (hw : Known schema commit w) : Leaves schema process (fun pending w =>
      (pending = true ∧ Coherent schema w) ∨
        (pending = false ∧ Starting schema commit w)) (ask .journalExists) w := by
  apply safe_reading .journalExists rfl (fun _ _ hw => hw.1) hw
  intro choice w pending hw hok
  cases hok
  cases hj : w.disk.journal with
  | some journal => exact Or.inl ⟨rfl, hw.1⟩
  | none => exact Or.inr ⟨rfl, ⟨hw.1, hj⟩, hw.2⟩

theorem safe_commitFiles {commit : Commit Config} (hw : Known schema commit w) :
    Maintains (network schema process) (Coherent schema) (commitFiles codec commit) w :=
  (fenceOutline schema process codec).course.safe_commitFiles
    (safe_openJournal (fun _ hw => safe_ignored .journalExists rfl hw) (safe_journalExists hw)
      (fun _ hw => safe_preparedFor hw) (fun _ _ hconfig _ hw => safe_writeJournal (hconfig ▸ hw)))

theorem safe_call (call : Call Config) (hw : Coherent schema w) :
    Maintains (network schema process) (Coherent schema) (call.program codec) w := by
  cases call with
  | commit commit =>
    exact Safe.seq_pure (safe_commitFiles ⟨hw, nofun⟩)
  | commitPrepared commit =>
    apply Safe.seq (safe_prepare hw)
    intro prepared w hw
    refine Safe.seq_pure (safe_commitFiles ⟨hw.1, ?_⟩)
    rintro other ⟨⟩
    exact hw.2
  | recover =>
    exact Safe.seq_pure ((fenceOutline schema process codec).course.safe_recoverLocked hw)

/-- The world after a series of calls; a call whose schedule ends early has crashed. -/
def history (schema : Schema Config Content) (process : Owner) (codec : Codec Config)
    (calls : List (Call Config × List (Action (network schema process))))
    (w : World Config Content) :
    World Config Content :=
  run (session (network schema process)) (calls.map (fun call => (call.1.program codec, call.2))) w

theorem coherent_history (hw : Coherent schema w)
    (calls : List (Call Config × List (Action (network schema process)))) :
    Coherent schema (history schema process codec calls w) := by
  refine session_invariant ?_ hw
  intro s hs w hw
  obtain ⟨call, _, rfl⟩ := List.mem_map.mp hs
  exact safe_call call.1 hw

/-- Once a publication is found unchanged, no delivery of its PUT changes the core any more; when it
is found applied, the core has its target. -/
theorem fence_settles_publication (schema : Schema Config Content) (process : Owner)
    (codec : Codec Config) (hinjective : Function.Injective schema.fingerprint)
    (calls : List (Call Config × List (Action (network schema process)))) (w : World Config Content)
    (hrevision : w.core.revision ≤ revisionBound) (hflight : w.flight = [])
    (hjournal : w.disk.journal = none) (hsettled : w.settled = []) :
    ∀ entry ∈ (history schema process codec calls w).settled,
      (entry.verdict.outcome = .unchanged → ∀ config accepted,
        (deliver schema accepted (.put config entry.prepared.expected)
          (history schema process codec calls w).core).content =
          (history schema process codec calls w).core.content) ∧
      (entry.verdict.outcome = .applied →
        ∀ target, schema.fingerprint target = entry.prepared.targetHash →
        entry.content = target) := by
  have hstart : Coherent schema w := by
    refine ⟨hrevision, ?_, ?_, ?_, ?_⟩
    · rw [hflight]
      exact nofun
    · rw [hflight]
      exact nofun
    · rw [hjournal]
      exact nofun
    · rw [hsettled]
      exact nofun
  have hend : Coherent schema (history schema process codec calls w) :=
    coherent_history hstart calls
  intro entry he
  have hentry := hend.settled entry he
  unfold Settled at hentry
  refine ⟨?_, ?_⟩
  · intro hu config accepted
    rw [hu] at hentry
    have hinert : Inert schema (history schema process codec calls w).core
      (.put config entry.prepared.expected) :=
      Or.inl hentry
    exact content_deliver_of_inert hinert accepted
  · intro ha target htarget
    rw [ha] at hentry
    exact hinjective (hentry.trans htarget.symm)

def plainSchema : Schema Bool Bool where
  configObject := some
  fingerprint content := String.ofList (List.replicate 64 (if content then 'a' else '0'))
  planUserUpdate _ _ := true

def plainCodec : Codec Bool := ⟨fun _ => "", fun _ _ _ => ""⟩

def quietWorld : World Bool Bool where
  core := { instanceId := "i", revision := 0, content := false }
  flight := []
  disk := { files := fun _ => none, current := none, journal := none }
  socket := "/run/core.sock"
  settled := []

def toTrue : Commit Bool where
  config := true
  previousConfig := false
  targets := ⟨[("config.json", "true")], List.nodup_singleton "config.json"⟩
  archivedVersions := ⟨[], List.nodup_nil⟩

def lostPut : List (Action (network plainSchema (0, 0))) :=
  calls (List.replicate 7 .proceed ++ List.replicate 3 (.merged ⟨[], List.nodup_nil⟩) ++
    [.proceed, .proceed, .proceed, .late] ++ List.replicate 4 .proceed)

def fencedWorld : World Bool Bool :=
  history plainSchema (0, 0) plainCodec [(.commit toTrue, lostPut)] quietWorld

theorem plainSchema_injective : Function.Injective plainSchema.fingerprint := by
  intro a b
  revert a b
  decide

theorem lost_put_is_fenced :
    fencedWorld.settled.map (·.verdict.outcome) = [.unchanged] ∧ fencedWorld.flight.length = 1 ∧
      ∀ entry ∈ fencedWorld.settled,
        (entry.verdict.outcome = .unchanged → ∀ config accepted,
          (deliver plainSchema accepted (.put config entry.prepared.expected)
            fencedWorld.core).content =
            fencedWorld.core.content) ∧
        (entry.verdict.outcome = .applied →
          ∀ target, plainSchema.fingerprint target = entry.prepared.targetHash →
          entry.content = target) :=
  ⟨by decide, by decide, fence_settles_publication plainSchema (0, 0) plainCodec
    plainSchema_injective [(.commit toTrue, lostPut)] quietWorld (by decide) rfl rfl rfl⟩

end NodeManager.FenceSafety
