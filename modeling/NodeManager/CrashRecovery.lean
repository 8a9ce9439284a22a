import NodeManager.CrashPrograms

namespace NodeManager.CrashRecovery

open Programs RuntimeCore Publication PublicationWorld PublicationOutline FencePrograms
  CrashInvariant CrashPrograms

variable {Config Content : Type} {schema : Schema Config Content} {process : Owner}
  {commit : Commit Config} {disk₀ disk : Disk Config} {a : Attempt Config Content}
  {journal : Journal Config} {w : World Config Content}
  {K K' : Disk Config → List (Settlement Content) → Prop} {records : Records}
  {g : String → Option FileState} {body : JournalBody Config} {verdict : Verdict}

structure Restores (process : Owner) (commit : Commit Config) (disk₀ : Disk Config)
    (records : Records) (g : String → Option FileState) : Prop where
  either : ∀ path, g path = disk₀.files path ∨ g path = afterFiles process commit disk₀.files path
  written : ∀ item ∈ records, item.2.map (FileRecord.written process) = g item.1
  keys : ∀ path, afterFiles process commit disk₀.files path ≠ disk₀.files path →
    path ∈ records.map Prod.fst

theorem Recorded.restoresBefore (hr : Recorded process commit disk₀ body) :
    Restores process commit disk₀ body.before disk₀.files :=
    ⟨fun _ => Or.inl rfl, hr.before, hr.beforeKeys⟩

theorem Recorded.restoresAfter (hr : Recorded process commit disk₀ body) :
    Restores process commit disk₀ body.after (afterFiles process commit disk₀.files) :=
  ⟨fun _ => Or.inr rfl, hr.after, hr.afterKeys⟩

theorem Restores.interrupted (hr : Restores process commit disk₀ records g)
    {item : String × Option FileRecord} (hitem : item ∈ records)
    (hi : Interrupted process commit disk₀ journal disk) :
    Interrupted process commit disk₀ journal (disk.restore process (.target item.1) item.2) := by
  refine ⟨hi.1, hi.2.1, ?_⟩
  intro path
  simp only [Disk.restore, hr.written item hitem]
  by_cases hp : path = item.1
  · subst hp
    rw [Function.update_self]
    exact hr.either item.1
  · rw [Function.update_of_ne hp]
    exact hi.2.2 path

theorem Restores.files_eq (hr : Restores process commit disk₀ records g)
    (hmixed : Mixed process commit disk₀ disk)
    (hw : ∀ item ∈ records, disk.files item.1 = g item.1) : disk.files = g := by
  funext path
  by_cases hp : afterFiles process commit disk₀.files path = disk₀.files path
  · have hdisk := hmixed path
    have hg := hr.either path
    rw [hp, or_self] at hdisk hg
    rw [hdisk, hg]
  · obtain ⟨item, hitem, rfl⟩ := List.mem_map.mp (hr.keys path hp)
    exact hw item hitem

theorem safe_restore (file : File) (record : Option FileRecord)
    (hchange : ∀ w, a.Stage journal K w →
      a.Stage journal K' { w with disk := w.disk.restore a.process file record })
    (hw : a.Stage journal K w) :
    Safe (volatile schema a.process) a.Left (fun _ => a.Stage journal K') (fun _ => a.Left)
    (ask (.restore file record)) w := by
  refine Safe.ask_writing (Op.restore file record) hw (fun _ => resting_stage.crash)
    (fun _ => resting_stage.crash) (fun choice w hw => ?_)
  refine (write_cases _ w choice).imp_left (fun heq => ?_)
  change a.Stage journal K' (w.write _ choice).2
  rw [heq]
  exact hchange w hw

theorem safe_writeRecords (hr : Restores a.process a.commit a.disk records g)
    (hK : ∀ disk files settled, K disk settled → K { disk with files := files } settled)
    (hw : a.Stage journal K w) :
    Safe (volatile schema a.process) a.Left
      (fun _ => a.Stage journal (fun disk settled => disk.files = g ∧ K disk settled))
      (fun _ => a.Left) (writeRecords records) w := by
  let I : List (String × Option FileRecord) → World Config Content → Prop := fun rest =>
    a.Stage journal (fun disk settled =>
      (∀ item ∈ records, item ∈ rest ∨ disk.files item.1 = g item.1) ∧ K disk settled)
  apply Safe.seq (Q := fun _ => I [])
  · refine Safe.forEach (I := I) ⟨hw.1, fun _ => Or.inl, hw.2⟩ ?_
    intro item rest w hs hw
    have hitem : item ∈ records := hs.subset List.mem_cons_self
    refine safe_restore (.target item.1) item.2 ?_ hw
    rintro w ⟨⟨hi, hs⟩, hwritten, hk⟩
    refine ⟨⟨hr.interrupted hitem hi, hs⟩, ?_, hK _ _ _ hk⟩
    intro other ho
    by_cases hp : other.1 = item.1
    · right
      simp only [Disk.restore, hp, Function.update_self]
      exact hr.written item hitem
    rcases hwritten other ho with hmem | heq
    · rcases List.mem_cons.mp hmem with rfl | hmem
      · exact absurd rfl hp
      · exact Or.inl hmem
    · right
      simp only [Disk.restore, Function.update_of_ne hp]
      exact heq
  · rintro _ w ⟨hi, hwritten, hk⟩
    have hfiles : w.disk.files = g :=
      hr.files_eq hi.1.2.2 (fun item hitem => (hwritten item hitem).resolve_left nofun)
    refine Safe.forEach (I := fun _ =>
      a.Stage journal (fun disk settled => disk.files = g ∧ K disk settled)) ⟨hi, hfiles, hk⟩ ?_
    intro item _ w _ hw
    apply Safe.seq (keeps_quiet (.capture (.target item.1)) rfl w hw)
    intro observed w hw
    split_ifs
    · exact Safe.ret hw
    · exact Safe.raise (resting_stage.crash w hw)

theorem safe_restoreCurrent (record : Option FileRecord)
    (hK : ∀ disk current settled, K disk settled → K { disk with current := current } settled)
    (hw : a.Stage journal K w) :
    Safe (volatile schema a.process) a.Left (fun _ => a.Stage journal (fun disk settled =>
      disk.current = record.map (FileRecord.written a.process) ∧ K disk settled)) (fun _ => a.Left)
      (ask (.restore .current record)) w :=
  safe_restore .current record (fun _ ⟨hi, hk⟩ => ⟨hi, rfl, hK _ _ _ hk⟩) hw

theorem Decided.targetProved_iff {base : List (Settlement Content)}
    (hd : Decided base journal.prepared verdict w.settled) :
    TargetProved base w ↔ verdict.outcome = .applied := by
  obtain ⟨⟨entry, rest, hentry, hprepared, hverdict⟩, hiff⟩ := hd
  rw [hiff, ← hprepared, ← hverdict]
  constructor
  · rintro ⟨other, _, hother, hproved⟩
    obtain ⟨rfl, _⟩ := List.cons.inj (hentry.symm.trans hother)
    exact hproved
  · exact fun hproved => ⟨entry, rest, hentry, hproved⟩

def Done (a : Attempt Config Content) (journal : Journal Config) (verdict : Verdict)
    (disk : Disk Config) (settled : List (Settlement Content)) : Prop :=
  Decided a.base journal.prepared verdict settled ∧
    match verdict.outcome with
    | .applied => disk.files = a.after ∧
        disk.current = some (receiptFile a.process a.codec journal.config verdict.receipt
          journal.authAliases)
    | .unchanged =>
      disk.files = a.disk.files ∧ disk.current =
        journal.oldReceipt.map (FileRecord.written a.process)

theorem finished_of_done (hw : a.Stage journal (Done a journal verdict) w) :
    Finished a.process a.codec a.commit a.disk a.base { w with
      disk := w.disk.setJournal none } := by
  obtain ⟨hi, hdecided, hdone⟩ := hw
  have hiff : TargetProved a.base w ↔ verdict.outcome = .applied :=
    Decided.targetProved_iff hdecided
  cases houtcome : verdict.outcome with
  | unchanged =>
    rw [houtcome] at hdone hiff
    exact ⟨rfl, fun hp => absurd (hiff.mp hp) nofun,
      fun _ => ⟨hdone.1, hdone.2.trans hi.1.2.1.oldReceipt⟩⟩
  | applied =>
    rw [houtcome] at hdone hiff
    obtain ⟨⟨entry, rest, hentry, _, hverdict⟩, _⟩ := hdecided
    refine ⟨rfl, fun _ => ⟨hdone.1, entry, journal.authAliases, ?_, ?_⟩,
      fun hnot => absurd (hiff.mpr rfl) hnot⟩
    · rw [hentry, List.head?_cons]
    · rw [hverdict, ← hi.1.2.1.config]
      exact hdone.2

theorem safe_removeJournal (hw : a.Stage journal (Done a journal verdict) w) :
    Maintains (volatile schema process) a.Left (ask .removeJournal) w := by
  refine Safe.ask_leaving Op.removeJournal hw (fun (choice : Choice) w hw => ?_)
  cases choice with
  | fail failure => exact Or.inl ⟨journal, hw.1⟩
  | _ => exact Or.inr (finished_of_done hw)

theorem safe_readJournal (hw : a.Left w) :
    Safe (volatile schema process) a.Left (fun journal => a.Stage journal (fun _ _ => True))
    (fun _ => a.Left)
      (ask .readJournal) w := by
  refine Safe.ask_reading Op.readJournal (respond_of_reads rfl) hw (fun _ _ hw => hw) ?_
  intro choice w journal hw hok
  simp only [volatile, respond] at hok
  split at hok
  next stored hstored =>
    cases unlessFailed_ok hok
    rcases hw with ⟨other, hi⟩ | hfinished
    · cases hi.1.1.symm.trans hstored
      exact ⟨hi, trivial⟩
    · cases hfinished.journal.symm.trans hstored
  next => cases hok

theorem crashCourse (schema : Schema Config Content) (a : Attempt Config Content) :
    Course (volatile schema a.process) a.Left a.codec
    (fun journal => a.Stage journal (fun _ _ => True))
      (fun journal => a.Stage journal (fun disk _ => disk.files = a.after ∧ True))
      (fun journal verdict => a.Stage journal
        (fun _ settled => Decided a.base journal.prepared verdict settled))
      (fun journal verdict => a.Stage journal
        (fun disk settled => disk.files = a.after ∧
          Decided a.base journal.prepared verdict settled))
      (fun journal verdict => a.Stage journal (Done a journal verdict)) where
  journalExists := keeps_quiet .journalExists rfl
  enabled := keeps_quiet .enabled rfl
  checkMode := keeps_quiet .checkMode rfl
  readJournal _ hw := safe_readJournal hw
  known _ := resting_stage.crash
  resolving journal _ hw := ((crashFinding schema a.process a journal
    (fun _ _ _ hk => hk)).safe_resolve hw).mono (fun _ h => h) (fun _ _ h => ⟨h.1,
    h.2.2⟩) (fun _ _ h => h)
  placing _ _ hw := safe_writeRecords (Recorded.restoresAfter hw.1.1.2.1) (fun _ _ _ hk => hk) hw
  publishing journal _ hw := ((crashFinding schema a.process a journal
    (fun _ _ _ hk => hk)).safe_publish hw).mono (fun _ h => h) (fun _ _ h => ⟨h.1, h.2.1.1,
    h.2.2⟩) (fun _ _ h => h)
  weaken _ _ _ hw := ⟨hw.1, hw.2.2⟩
  keeping _ _ _ hw _ := safe_writeRecords (Recorded.restoresAfter hw.1.1.2.1)
    (fun _ _ _ hk => hk) hw
  receipt journal verdict _ hw happlied := by
    refine safe_recordReceipt (keeps_quiet .readAliases rfl)
      (fun aliases => keeps_quiet (.bindOwners aliases) rfl)
      (fun values => keeps_quiet (.versions values) rfl) (fun w hw => ?_) hw
    refine (safe_restoreCurrent _ (fun _ _ _ hk => hk) hw).mono (fun _ h => h) (fun _ w h => ?_)
      (fun _ _ h => h)
    refine ⟨h.1, h.2.2.2, ?_⟩
    rw [happlied]
    exact ⟨h.2.2.1, h.2.1⟩
  undoing journal verdict _ hw hunchanged := by
    apply Safe.seq (safe_writeRecords (Recorded.restoresBefore hw.1.1.2.1) (fun _ _ _ hk => hk) hw)
    intro _ w hw
    refine (safe_restoreCurrent journal.oldReceipt (fun _ _ _ hk => hk) hw).mono (fun _ h => h)
      (fun _ w h => ?_) (fun _ _ h => h)
    refine ⟨h.1, h.2.2.2, ?_⟩
    rw [hunchanged]
    exact ⟨h.2.2.1, h.2.1⟩
  removeJournal _ _ _ hw := safe_removeJournal hw

end NodeManager.CrashRecovery
