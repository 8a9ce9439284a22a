import NodeManager.CrashRecovery
import NodeManager.FenceSafety

namespace NodeManager.CrashAtomicity

open Dictionary Programs Runs RuntimeCore Publication PublicationWorld PublicationOutline
  FencePrograms CrashInvariant CrashPrograms CrashRecovery
open FenceSafety (plainSchema plainCodec quietWorld)

variable {Config Content : Type} {schema : Schema Config Content} {process : Owner}
  {codec : Codec Config} {commit : Commit Config} {disk₀ : Disk Config}
  {base : List (Settlement Content)} {journal : Journal Config} {body : JournalBody Config}
  {w : World Config Content}

def Untouched (disk₀ : Disk Config) (base : List (Settlement Content))
    (w : World Config Content) : Prop :=
  w.disk = disk₀ ∧ w.settled = base

instance resting_untouched [hjournal : Fact (disk₀.journal = none)] :
    Resting (Crashed process codec commit disk₀ base) (Untouched disk₀ base) := by
  constructor
  · rintro w w' hdisk hsettled ⟨hw, hnil⟩
    exact ⟨hdisk.trans hw, hsettled.trans hnil⟩
  · rintro w ⟨rfl, hnil⟩
    exact Or.inr ⟨hjournal.out, fun hp => absurd hp (not_targetProved hnil), fun _ => ⟨rfl, rfl⟩⟩

def capturedOf (disk₀ : Disk Config) (target : String × String) : Captured :=
  ⟨target.1, target.2, (disk₀.files target.1).map FileState.record⟩

theorem written_record (file : Option FileState) :
    (file.map FileState.record).map (FileRecord.written process) = file := by
  cases file with
  | none => rfl
  | some file => rfl

theorem written_after {target : String × String} (ht : target ∈ commit.targets.entries) :
    (capturedOf disk₀ target).after.2.map (FileRecord.written process) =
      afterFiles process commit disk₀.files target.1 := by
  have hget : commit.targets.get? target.1 = some target.2 := Dict.mem_entries_iff.mp ht
  simp only [Captured.after, capturedOf, afterFiles, hget]
  cases disk₀.files target.1 with
  | none => rfl
  | some file => rfl

theorem mem_keys_of_changed {path : String}
    (hp : afterFiles process commit disk₀.files path ≠ disk₀.files path) :
    ∃ target ∈ commit.targets.entries, target.1 = path := by
  unfold afterFiles at hp
  split at hp
  · exact absurd rfl hp
  next data hget => exact ⟨(path, data), Dict.mem_entries_iff.mpr hget, rfl⟩

theorem recorded_of_captured {body : JournalBody Config} (hconfig : body.config = commit.config)
    (hbefore : body.before = (commit.targets.entries.map (capturedOf disk₀)).map (·.before))
    (hafter : body.after = (commit.targets.entries.map (capturedOf disk₀)).map (·.after))
    (hreceipt : body.oldReceipt = disk₀.current.map FileState.record) :
    Recorded process commit disk₀ body := by
  refine ⟨hconfig, ?_, ?_, ?_, ?_, ?_⟩
  · intro item hitem
    rw [hbefore, List.map_map] at hitem
    obtain ⟨target, _, rfl⟩ := List.mem_map.mp hitem
    exact written_record _
  · intro item hitem
    rw [hafter, List.map_map] at hitem
    obtain ⟨target, ht, rfl⟩ := List.mem_map.mp hitem
    exact written_after ht
  · intro path hp
    obtain ⟨target, ht, rfl⟩ := mem_keys_of_changed hp
    rw [hbefore, List.map_map, List.map_map]
    exact List.mem_map.mpr ⟨target, ht, rfl⟩
  · intro path hp
    obtain ⟨target, ht, rfl⟩ := mem_keys_of_changed hp
    rw [hafter, List.map_map, List.map_map]
    exact List.mem_map.mpr ⟨target, ht, rfl⟩
  · rw [hreceipt, written_record]

section Opening

variable {a : Attempt Config Content} [Fact (a.disk.journal = none)]
  (hw : Untouched a.disk a.base w)
include hw

theorem safe_prepare {previous desired : Config} :
    Safe (volatile schema process) a.Left (fun _ => Untouched a.disk a.base) (fun _ => a.Left)
      (prepare previous desired) w :=
  safe_prepare_kept (keeps_quiet .checkMode rfl)
    (fun config => keeps_quiet (.preview config) rfl) hw

theorem safe_preparedFor :
    Safe (volatile schema process) a.Left (fun _ => Untouched a.disk a.base) (fun _ => a.Left)
    (preparedFor a.commit) w := by
  unfold preparedFor
  split
  · exact safe_prepare hw
  · exact Safe.ret hw

theorem safe_captureRecord (file : File) : Safe (volatile schema process) a.Left
      (fun old w => Untouched a.disk a.base w ∧ old = (a.disk.read file).map FileState.record)
      (fun _ => a.Left) (captureRecord file) w := by
  apply Safe.seq (Q := fun observed w => Untouched a.disk a.base w ∧ observed = a.disk.read file)
  · refine Safe.ask (Op.capture file) hw ?_ ?_
    · rintro choice w observed ⟨hdisk, hnil⟩ hok
      cases unlessFailed_ok hok
      exact ⟨⟨hdisk, hnil⟩, congrArg (Disk.read · file) hdisk⟩
    · exact fun _ w _ hw _ => resting_untouched.crash w hw
  · rintro observed w ⟨hw, rfl⟩
    exact Safe.ret ⟨hw, rfl⟩

theorem safe_captureTargets (targets : List (String × String)) :
    Safe (volatile schema process) a.Left
      (fun captured w => Untouched a.disk a.base w ∧ captured = targets.map (capturedOf a.disk))
      (fun _ => a.Left) (captureTargets targets) w := by
  induction targets generalizing w with
  | nil => exact Safe.ret ⟨hw, rfl⟩
  | cons target targets ih =>
    apply Safe.seq (safe_captureRecord hw (.target target.1))
    rintro old w ⟨hw, rfl⟩
    apply Safe.seq (ih hw)
    rintro rest w ⟨hw, rfl⟩
    exact Safe.ret ⟨hw, rfl⟩

theorem safe_writeJournal (hrecorded : Recorded a.process a.commit a.disk journal.toJournalBody) :
    Safe (volatile schema process) a.Left (fun _ => a.Stage journal (fun _ _ => True))
    (fun _ => a.Left)
      (ask (.writeJournal journal)) w := by
  have hopened : ∀ w, Untouched a.disk a.base w →
      a.Stage journal (fun _ _ => True) { w with disk := w.disk.setJournal (some journal) } := by
    rintro w ⟨hdisk, hnil⟩
    exact ⟨⟨⟨rfl, hrecorded, fun _ => Or.inl (by rw [hdisk]; rfl)⟩, [], hnil⟩, trivial⟩
  refine Safe.ask_writing (Op.writeJournal journal) hw (fun _ => resting_untouched.crash)
    (fun _ => resting_stage.crash) (fun choice w hw => ?_)
  refine (write_cases _ w choice).imp_left (fun heq => ?_)
  change a.Stage journal _ (w.write _ choice).2
  rw [heq]
  exact hopened w hw

theorem safe_openJournal :
    Safe (volatile schema process) a.Left
    (Opened (fun journal => a.Stage journal (fun _ _ => True))) (fun _ => a.Left)
      (openJournal a.codec a.commit) w := by
  apply Safe.seq (keeps_quiet .journalExists rfl w hw)
  intro pending w hw
  split_ifs
  · exact Safe.raise (resting_untouched.crash w hw)
  apply Safe.seq (safe_preparedFor hw)
  intro prepared w hw
  apply Safe.seq (safe_captureTargets hw a.commit.targets.entries)
  rintro captured w ⟨hw, hcaptured⟩
  apply Safe.seq (safe_captureRecord hw .current)
  rintro oldReceipt w ⟨hw, hreceipt⟩
  apply Safe.seq (keeps_quiet .readAliases rfl w hw)
  intro known w hw
  apply Safe.seq (keeps_quiet (.mergeAliases a.commit.previousConfig known) rfl w hw)
  intro aliases w hw
  apply Safe.seq (keeps_quiet (.mergeAliases a.commit.config aliases) rfl w hw)
  intro aliases w hw
  apply Safe.seq (Q := fun _ => Opened (fun journal => a.Stage journal (fun _ _ => True)) _)
  · apply Safe.handle
    · refine (safe_writeJournal hw ?_).mono (fun _ hc => hc) (fun _ _ hq => ⟨_, rfl, hq⟩)
        (fun _ _ he => he)
      exact recorded_of_captured rfl (by rw [← hcaptured]) (by rw [← hcaptured]) hreceipt
    · intro failure w hw
      apply Safe.seq (keeps_quiet .journalExists rfl w hw)
      intro visible w hw
      split_ifs
      · exact Safe.raise hw
      · exact Safe.raise hw
  · intro _ w hw
    exact Safe.ret hw

theorem safe_commitFiles : Maintains (volatile schema a.process) a.Left
    (commitFiles a.codec a.commit) w :=
  (crashCourse schema a).safe_commitFiles (safe_openJournal hw)

end Opening

/-- The world after a commit and its recoveries, each stopped where its schedule ends. -/
def aftermath (schema : Schema Config Content) (process : Owner) (codec : Codec Config)
    (commit : Commit Config) (first : List (Action (volatile schema process)))
    (recoveries : List (List (Action (volatile schema process)))) (w : World Config Content) :
    World Config Content :=
  run (session (volatile schema process))
    (recoveries.map (fun actions => (recoverLocked codec, actions)))
    (session (volatile schema process) (commitFiles codec commit, first) w)

/-- However often a commit and its recoveries are stopped: once the journal is gone, all files are
those of the last verdict. -/
theorem publication_crash_atomic (schema : Schema Config Content) (process : Owner)
    (codec : Codec Config) (commit : Commit Config)
    (first : List (Action (volatile schema process)))
    (recoveries : List (List (Action (volatile schema process)))) (w : World Config Content)
    (hjournal : w.disk.journal = none)
    (hgone : (aftermath schema process codec commit first recoveries w).disk.journal = none) :
    (TargetProved w.settled (aftermath schema process codec commit first recoveries w) →
      AllAfter process codec commit w.disk
      (aftermath schema process codec commit first recoveries w)) ∧
    (¬ TargetProved w.settled (aftermath schema process codec commit first recoveries w) →
      AllBefore w.disk (aftermath schema process codec commit first recoveries w).disk) := by
  have : Fact (w.disk.journal = none) := ⟨hjournal⟩
  have hcommitted : Crashed process codec commit w.disk w.settled
      (session (volatile schema process) (commitFiles codec commit, first) w) :=
    (@safe_commitFiles _ _ schema w ⟨process, codec, commit, w.disk, w.settled⟩ this
      ⟨rfl, rfl⟩ first).1
  have hend : Crashed process codec commit w.disk w.settled
      (aftermath schema process codec commit first recoveries w) := by
    refine session_invariant ?_ hcommitted
    intro s hs w hw
    obtain ⟨actions, _, rfl⟩ := List.mem_map.mp hs
    exact (crashCourse schema ⟨process, codec, commit, _, _⟩).safe_recoverLocked hw
  rcases hend with ⟨journal, hi⟩ | hfinished
  · cases hgone.symm.trans hi.1.1
  · exact ⟨hfinished.after, hfinished.before⟩

def twoFiles : Commit Bool where
  config := true
  previousConfig := false
  targets := ⟨[("config.json", "true"), ("registry.json", "{}")], by decide⟩
  archivedVersions := ⟨[], List.nodup_nil⟩

def stoppedAfterPut : List (Action (volatile plainSchema (0, 0))) :=
  calls (List.replicate 8 .proceed ++ List.replicate 3 (.merged ⟨[], List.nodup_nil⟩) ++
    List.replicate 6 .proceed)

def twoRecoveries : List (List (Action (volatile plainSchema (0, 0)))) :=
  [calls (List.replicate 8 .proceed),
    calls (List.replicate 11 .proceed ++ [.merged ⟨[], List.nodup_nil⟩] ++
      List.replicate 5 .proceed)]

def recoveredWorld : World Bool Bool :=
  aftermath plainSchema (0, 0) plainCodec twoFiles stoppedAfterPut twoRecoveries quietWorld

theorem crashed_commit_completed :
    recoveredWorld.disk.journal.isNone = true ∧
    recoveredWorld.settled.map (·.verdict.outcome) = [.applied, .applied] ∧
      (TargetProved quietWorld.settled recoveredWorld →
        AllAfter (0, 0) plainCodec twoFiles quietWorld.disk recoveredWorld) ∧
      (¬ TargetProved quietWorld.settled recoveredWorld →
        AllBefore quietWorld.disk recoveredWorld.disk) :=
  ⟨by decide +kernel, by decide +kernel,
    publication_crash_atomic plainSchema (0, 0) plainCodec twoFiles stoppedAfterPut twoRecoveries
    quietWorld rfl (Option.isNone_iff_eq_none.mp (by decide +kernel))⟩

end NodeManager.CrashAtomicity
