import NodeManager.FencePrograms

namespace NodeManager.CrashInvariant

open Programs RuntimeCore Publication PublicationWorld

variable {Config Content : Type} {schema : Schema Config Content} {process : Owner}
  {codec : Codec Config} {commit : Commit Config} {disk₀ : Disk Config}
  {base : List (Settlement Content)} {w : World Config Content}

def afterFiles (process : Owner) (commit : Commit Config) (files : String → Option FileState) :
    String → Option FileState :=
  fun path => match commit.targets.get? path with
    | none => files path
    | some data =>
      some ⟨data, ((files path).map (·.mode)).getD 0o600, ((files path).map (·.owner)).getD process⟩

def receiptFile (process : Owner) (codec : Codec Config) (config : Config) (receipt : Status)
    (aliases : Aliases) :
    FileState := ⟨codec.receipt config receipt aliases, 0o600, process⟩

def TargetProved (base : List (Settlement Content)) (w : World Config Content) : Prop :=
  ∃ entry rest, w.settled = entry :: (rest ++ base) ∧
    entry.verdict.receipt.contentHash = entry.prepared.targetHash

theorem not_targetProved (hsettled : w.settled = base) : ¬ TargetProved base w := by
  rintro ⟨entry, rest, hentry, _⟩
  have hlength := congrArg List.length (hsettled.symm.trans hentry)
  simp only [List.length_cons, List.length_append] at hlength
  omega

structure AllBefore (disk₀ disk : Disk Config) : Prop where
  files : disk.files = disk₀.files
  current : disk.current = disk₀.current

structure AllAfter (process : Owner) (codec : Codec Config) (commit : Commit Config)
    (disk₀ : Disk Config) (w : World Config Content) : Prop where
  files : w.disk.files = afterFiles process commit disk₀.files
  current : ∃ entry aliases, w.settled.head? = some entry ∧
    w.disk.current = some (receiptFile process codec commit.config entry.verdict.receipt aliases)

structure Recorded (process : Owner) (commit : Commit Config) (disk₀ : Disk Config)
    (body : JournalBody Config) : Prop where
  config : body.config = commit.config
  before : ∀ item ∈ body.before, item.2.map (FileRecord.written process) = disk₀.files item.1
  after : ∀ item ∈ body.after, item.2.map (FileRecord.written process) =
    afterFiles process commit disk₀.files item.1
  beforeKeys : ∀ path, afterFiles process commit disk₀.files path ≠ disk₀.files path →
    path ∈ body.before.map Prod.fst
  afterKeys : ∀ path, afterFiles process commit disk₀.files path ≠ disk₀.files path →
    path ∈ body.after.map Prod.fst
  oldReceipt : body.oldReceipt.map (FileRecord.written process) = disk₀.current

def Mixed (process : Owner) (commit : Commit Config) (disk₀ disk : Disk Config) : Prop :=
  ∀ path, disk.files path = disk₀.files path ∨
    disk.files path = afterFiles process commit disk₀.files path

/-- The journal is there, and with it what is needed to complete or to undo the commit. -/
def Interrupted (process : Owner) (commit : Commit Config) (disk₀ : Disk Config)
    (journal : Journal Config) (disk : Disk Config) : Prop :=
  disk.journal = some journal ∧ Recorded process commit disk₀ journal.toJournalBody ∧
    Mixed process commit disk₀ disk

structure Finished (process : Owner) (codec : Codec Config) (commit : Commit Config)
    (disk₀ : Disk Config) (base : List (Settlement Content)) (w : World Config Content) : Prop where
  journal : w.disk.journal = none
  after : TargetProved base w → AllAfter process codec commit disk₀ w
  before : ¬ TargetProved base w → AllBefore disk₀ w.disk

def Crashed (process : Owner) (codec : Codec Config) (commit : Commit Config) (disk₀ : Disk Config)
    (base : List (Settlement Content)) (w : World Config Content) : Prop :=
  (∃ journal, Interrupted process commit disk₀ journal w.disk ∧
    ∃ since, w.settled = since ++ base) ∨
    Finished process codec commit disk₀ base w

theorem env_frame (event : Event ⊕ Core Content) (w : World Config Content) :
    ((volatile schema process).env event w).disk = w.disk ∧
    ((volatile schema process).env event w).settled = w.settled := by
  cases event with
  | inr core => exact ⟨rfl, rfl⟩
  | inl event =>
    change (event.occur schema w).disk = w.disk ∧ (event.occur schema w).settled = w.settled
    rcases occur_cases schema event w with ⟨_, _, _, _, _, heq⟩ | ⟨_, _, heq⟩
    · rw [heq]
      exact ⟨rfl, rfl⟩
    · rw [heq]
      exact ⟨rfl, rfl⟩

/-- An assertion about the disk and the verdicts alone, one a crash may leave behind. -/
class Resting (C P : World Config Content → Prop) : Prop where
  congr : ∀ w w', w'.disk = w.disk → w'.settled = w.settled → P w → P w'
  crash : ∀ w, P w → C w

instance Resting.durable {C P : World Config Content → Prop} [hr : Resting C P] :
    Durable (volatile schema process) C P := by
  refine ⟨?_, hr.crash⟩
  intro event w hw
  obtain ⟨hdisk, hsettled⟩ := @env_frame _ _ schema process event w
  exact hr.congr w _ hdisk hsettled hw

theorem Crashed.congr {w w' : World Config Content} (hdisk : w'.disk = w.disk)
    (hsettled : w'.settled = w.settled) (hw : Crashed process codec commit disk₀ base w) :
    Crashed process codec commit disk₀ base w' := by
  rcases hw with ⟨journal, hw, hsince⟩ | hw
  · exact Or.inl ⟨journal, by rw [hdisk]; exact hw, by rw [hsettled]; exact hsince⟩
  have hproved : TargetProved base w' ↔ TargetProved base w := by
    rw [TargetProved, hsettled, TargetProved]
  refine Or.inr ⟨by rw [hdisk]; exact hw.journal, ?_, ?_⟩
  · intro hp
    obtain ⟨hfiles, entry, aliases, hentry, hcurrent⟩ := hw.after (hproved.mp hp)
    exact ⟨by rw [hdisk]; exact hfiles, entry,
      aliases, by rw [hsettled]; exact hentry, by rw [hdisk]; exact hcurrent⟩
  · intro hp
    rw [hdisk]
    exact hw.before (fun hpw => hp (hproved.mpr hpw))

instance resting_crashed : Resting (Crashed process codec commit disk₀ base)
    (@Crashed _ Content process codec commit disk₀ base) :=
  ⟨fun _ _ hdisk hsettled hw => hw.congr hdisk hsettled, fun _ hw => hw⟩

end NodeManager.CrashInvariant
