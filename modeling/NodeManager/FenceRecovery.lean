import NodeManager.FencePrograms
import NodeManager.PublicationOutline

namespace NodeManager.FenceRecovery

open Programs RuntimeCore Publication PublicationWorld PublicationOutline FenceInvariant
  FencePrograms

variable {Config Content : Type} {schema : Schema Config Content} {process : Owner}
  {codec : Codec Config} {journal : Journal Config} {w : World Config Content}

class Blind (P : World Config Content → Prop) : Prop where
  rewrite : ∀ (w : World Config Content) (disk : Disk Config), disk.journal = w.disk.journal → P w →
    P { w with disk := disk }

theorem Coherent.rewrite {disk : Disk Config} (hj : disk.journal = w.disk.journal)
    (hw : Coherent schema w) :
    Coherent schema { w with disk := disk } := by
  refine ⟨hw.bounded, hw.flight, ?_, ?_, hw.settled⟩
  · rw [hj]
    exact hw.pending
  · rw [hj]
    exact hw.journal

instance blind_pending : Blind (Pending schema journal) :=
  ⟨fun _ _ hj hw => ⟨Coherent.rewrite hj hw.1, hj.trans hw.2⟩⟩

instance blind_resolved : Blind (Resolved schema journal) :=
  ⟨fun w disk hj hw => ⟨blind_pending.rewrite w disk hj hw.1, hw.2⟩⟩

section Files

variable {P : World Config Content → Prop} [hd : Lasts schema process P] [hb : Blind P]

theorem safe_restore (file : File) (record : Option FileRecord) (hw : P w) :
    Leaves schema process (fun _ => P) (ask (.restore file record)) w := by
  have hjournal : ∀ disk : Disk Config,
      (disk.restore process file record).journal = disk.journal := by
    intro disk
    cases file <;> rfl
  refine Safe.ask_writing (Op.restore file record) hw (fun _ => hd.crash) (fun _ => hd.crash)
    (fun choice w hw => ?_)
  refine (write_cases (Disk.restore process file record) w choice).imp_left (fun heq => ?_)
  change P (w.write _ choice).2
  rw [heq]
  exact hb.rewrite w _ (hjournal w.disk) hw

instance steady_of_blind : Steady (network schema process) (Coherent schema) P where
  capture path _ hw := safe_ignored (.capture (.target path)) rfl hw
  restore path record _ hw := safe_restore (.target path) record hw

theorem safe_receipt (body : JournalBody Config) (receipt : Status) (hw : P w) :
    Leaves schema process (fun _ => P) (recordReceipt codec body receipt) w :=
  safe_recordReceipt (fun _ hw => safe_ignored .readAliases rfl hw)
    (fun aliases _ hw => safe_ignored (.bindOwners aliases) rfl hw)
    (fun values _ hw => safe_ignored (.versions values) rfl hw)
    (fun _ hw => safe_restore .current _ hw) hw

end Files

theorem safe_removeJournal (hw : Resolved schema journal w) :
    Maintains (network schema process) (Coherent schema) (ask .removeJournal) w := by
  refine Safe.ask_leaving Op.removeJournal hw (fun (choice : Choice) w hw => ?_)
  cases choice with
  | fail failure => exact hw.1.1
  | _ =>
    exact ⟨hw.1.1.bounded, hw.1.1.flight, fun request hr => Or.inl (hw.2 request hr), nofun,
      hw.1.1.settled⟩

theorem safe_readJournal (hw : Coherent schema w) :
    Leaves schema process (Pending schema) (ask .readJournal) w := by
  apply safe_reading .readJournal rfl (fun _ _ hw => hw) hw
  intro choice w journal hw hok
  simp only [respond] at hok
  split at hok
  next stored hstored =>
    have heq := unlessFailed_ok hok
    cases heq
    exact ⟨hw, hstored⟩
  next => cases hok

theorem fenceFinding (schema : Schema Config Content) (process : Owner) (journal : Journal Config) :
    Finding (network schema process) (Coherent schema) (Pending schema journal) journal.config
    journal.prepared
      (fun status w => Pending schema journal w ∧ Observed schema journal status w)
      (fun _ w => Resolved schema journal w ∧ journal.prepared.expected.revision < w.core.revision)
      (fun _ => Proved schema journal .applied) (fun _ => Resolved schema journal) where
  checkMode _ hw := safe_ignored .checkMode rfl hw
  apply _ hw := safe_apply hw
  status _ hw := safe_status hw
  seen _ _ hw := hw.1
  fence _ _ hw := safe_fence hw
  proved _ _ _ hw htarget _ _ := ⟨⟨hw.1, (hw.2.2.2 htarget).1⟩, (hw.2.2.2 htarget).2⟩
  applied _ _ hw _ := safe_conclude hw
  unchanged _ _ hw _ _ := safe_conclude hw

theorem fenceOutline (schema : Schema Config Content) (process : Owner) (codec : Codec Config) :
    Outline (network schema process) (Coherent schema) codec (Pending schema)
    (fun journal _ => Resolved schema journal)
      (fun journal _ => Resolved schema journal) where
  journalExists _ hw := safe_ignored .journalExists rfl hw
  enabled _ hw := safe_ignored .enabled rfl hw
  checkMode _ hw := safe_ignored .checkMode rfl hw
  readJournal _ hw := safe_readJournal hw
  resolving journal _ hw := (fenceFinding schema process journal).safe_resolve hw
  publishing journal _ hw := (fenceFinding schema process journal).safe_publish hw
  receipt journal verdict _ hw _ := safe_receipt journal.toJournalBody verdict.receipt hw
  oldReceipt _ _ _ hw _ := safe_restore .current _ hw
  removeJournal _ _ _ hw := safe_removeJournal hw

end NodeManager.FenceRecovery
