import Mathlib.Data.Countable.Basic
import Mathlib.Logic.Encodable.Basic
import Mathlib.Logic.Equiv.List
import Mathlib.Tactic.DeriveCountable
import NodeManager.CrashAtomicity
import NodeManager.VersionedTasks

namespace NodeManager.UserVersions

open Dictionary Singbox Identities Outcomes Programs Runs RuntimeCore Publication PublicationWorld
  PublicationOutline
open CrashInvariant CrashPrograms CrashRecovery VersionedTasks
open Submissions

/-- Versions of one user grow along the log, and no two entries expect the same one. -/
def Increasing (log : List Record) : Prop :=
  log.Pairwise (fun later earlier => later.userId = earlier.userId →
    earlier.version < later.version ∧ ∀ expected ∈ earlier.expected, later.expected ≠ some expected)

/-- The log so far: what was expected was the version before, and nobody is given a version
twice. -/
structure Tallied (history versions : Dict String Nat) (log : List Record) : Prop where
  increasing : Increasing log
  expected : ∀ record ∈ log, ∀ expected ∈ record.expected, record.version = expected + 1
  covered : ∀ record ∈ log, record.version ≤ userVersion history versions record.userId

variable {history history' versions versions' : Dict String Nat} {log : List Record}
  {taskId : WriteQueue.TaskId} {w w' : Workspace} {files : Files}

theorem Tallied.mono (h : Tallied history versions log)
    (hle : ∀ userId, userVersion history versions userId ≤ userVersion history' versions' userId) :
    Tallied history' versions' log :=
  ⟨h.increasing, h.expected, fun record hrecord =>
    (h.covered record hrecord).trans (hle record.userId)⟩

theorem Tallied.record (h : Tallied history versions log) {record : Record}
    (hversion : record.version = userVersion history versions record.userId + 1)
    (hexpected : ∀ expected ∈ record.expected,
      expected = userVersion history versions record.userId) :
    Tallied history (versions.set record.userId record.version) (record :: log) := by
  have hbelow (earlier : Record) (hmem : earlier ∈ log) (huser : record.userId = earlier.userId) :
      earlier.version < record.version := by
    have hcovered := h.covered earlier hmem
    rw [← huser] at hcovered
    omega
  refine ⟨List.pairwise_cons.mpr ⟨fun earlier hmem huser =>
    ⟨hbelow earlier hmem huser, fun k hk heq => ?_⟩, h.increasing⟩, fun other hother k hk => ?_,
    fun other hother => ?_⟩
  · have hearlier := h.expected earlier hmem k hk
    have hlater := hexpected k heq
    have hlt := hbelow earlier hmem huser
    omega
  · obtain rfl | hother := List.mem_cons.mp hother
    · rw [hversion, hexpected k hk]
    · exact h.expected other hother k hk
  rw [userVersion_set]
  obtain rfl | hother := List.mem_cons.mp hother
  · rw [if_pos rfl]
    exact Nat.le_max_left _ _
  split
  next huser => exact (hbelow other hother huser.symm).le.trans (Nat.le_max_left _ _)
  next => exact h.covered other hother

def Accounted (records : List Record) (items : List (WriteQueue.TaskId × Work)) : Prop :=
  records.map Record.toDemand = (items.flatMap demands).reverse

theorem Accounted.append {records records' : List Record}
    {items items' : List (WriteQueue.TaskId × Work)} (h : Accounted records items)
    (h' : Accounted records' items') : Accounted (records' ++ records) (items ++ items') := by
  rw [Accounted, List.map_append, h, h', List.flatMap_append, List.reverse_append]

theorem runItem_accounted {item : WriteQueue.TaskId × Work}
    (hok : runItem history w item = .ok w') :
    w'.records.map Record.toDemand = (demands item).reverse ++ w.records.map Record.toDemand := by
  obtain ⟨taskId, work⟩ := item
  cases work with
  | task commands =>
    have hseen : w'.records.map Record.toDemand = (commands.map (fun command : Command =>
        (⟨taskId, command.userId, command.expectedUserVersion⟩ : Demand))).reverse ++
          w.records.map Record.toDemand := by
      refine foldlM_ok (motive := fun seen (v : Workspace) => v.records.map Record.toDemand =
        (seen.map (fun command : Command =>
          (⟨taskId, command.userId, command.expectedUserVersion⟩ : Demand))).reverse ++
          w.records.map Record.toDemand) (fun seen v command v' _ hv hstep => ?_) rfl hok
      obtain ⟨_, -, hstep⟩ := bind_eq_ok hstep
      obtain ⟨node, -, hstep⟩ := bind_eq_ok hstep
      cases hstep
      simp [hv]
    exact hseen
  | mutation userId callback =>
    obtain ⟨node, -, hok⟩ := bind_eq_ok hok
    cases userId <;> cases hok <;> rfl

theorem runBatch_accounted {items : List (WriteQueue.TaskId × Work)}
    (hok : runBatch history items files = .ok w) :
    Accounted w.records items := by
  refine foldlM_ok (motive := fun seen (v : Workspace) => Accounted v.records seen)
    (fun seen v item v' _ hv hstep => ?_) (s := (⟨files, []⟩ : Workspace)) rfl hok
  rw [Accounted, runItem_accounted hstep, hv]
  simp

section

variable (h : Tallied history w.files.versions (w.records ++ log))
include h

theorem runCommand_tallied {command : Command}
    (hok : runCommand history taskId w command = .ok w') :
    Tallied history w'.files.versions (w'.records ++ log) := by
  obtain ⟨_, hexpected, hok⟩ := bind_eq_ok hok
  obtain ⟨node, -, hok⟩ := bind_eq_ok hok
  cases hok
  exact @Tallied.record _ _ _ h ⟨⟨taskId, command.userId, command.expectedUserVersion⟩, _⟩ rfl
    (of_require hexpected)

theorem runMutation_tallied {userId : Option String} {callback : Node → Except String Node}
    (hok : runMutation history taskId userId callback w = .ok w') :
    Tallied history w'.files.versions (w'.records ++ log) := by
  obtain ⟨node, -, hok⟩ := bind_eq_ok hok
  cases userId with
  | none =>
    cases hok
    exact h
  | some userId =>
    cases hok
    exact @Tallied.record _ _ _ h ⟨⟨taskId, userId, none⟩, _⟩ rfl nofun

theorem runItem_tallied {item : WriteQueue.TaskId × Work}
    (hok : runItem history w item = .ok w') :
    Tallied history w'.files.versions (w'.records ++ log) := by
  obtain ⟨taskId, work⟩ := item
  cases work with
  | task commands =>
    exact foldlM_ok (motive := fun _ (w : Workspace) =>
      Tallied history w.files.versions (w.records ++ log)) (fun _ _ _ _ _ h hstep =>
      runCommand_tallied h hstep) h hok
  | mutation userId callback => exact runMutation_tallied h hok

end

theorem runBatch_tallied {items : List (WriteQueue.TaskId × Work)}
    (h : Tallied history files.versions log) (hok : runBatch history items files = .ok w) :
    Tallied history w.files.versions (w.records ++ log) :=
  foldlM_ok (motive := fun _ (w : Workspace) => Tallied history w.files.versions (w.records ++ log))
    (fun _ _ _ _ _ h hstep => runItem_tallied h hstep) h hok

def Covers (history : Dict String Nat) (values : Versions) : Prop :=
  ∀ userId version, values.get? userId = some version → version ≤ (history.get? userId).getD 0

theorem covers_raiseVersions (history : Dict String Nat) (values : Versions) :
    Covers (raiseVersions history values) values := by
  intro userId version hget
  rw [getD_raiseVersions, hget]
  exact Nat.le_max_right _ _

variable {Content : Type} {schema : Schema Files Content} {process : Owner} {codec : Codec Files}
  {archived : Versions} {base : List (Settlement Content)} {journal : Journal Files}
  {verdict : Verdict} {a : Archive Content} {P : Archive Content → Prop}

theorem recordVersions_mono (choice : Choice × Bool) (op : Op Files) (history : Dict String Nat)
    (userId : String) :
    (history.get? userId).getD 0 ≤ ((recordVersions choice op history).get? userId).getD 0 := by
  cases op with
  | versions values =>
    simp only [recordVersions]
    split
    · exact le_rfl
    · rw [getD_raiseVersions]
      exact Nat.le_max_left _ _
  | _ => exact le_rfl

theorem session_mono {α : Type} (p : Agent Files α)
    (schedule : List (Action (archiving schema process))) (userId : String) :
    (a.history.get? userId).getD 0 ≤
      ((session (archiving schema process) (p, schedule) a).history.get? userId).getD 0 :=
  (@Safe.of_closed _ _ _ _ _ (archiving schema process)
    (fun b => (a.history.get? userId).getD 0 ≤ (b.history.get? userId).getD 0) a
    (fun choice op _ hle => hle.trans (recordVersions_mono choice op _ userId)) (fun _ _ hle => hle)
    p le_rfl schedule).1

variable (archived base)

def Pending (journal : Journal Files) (a : Archive Content) : Prop :=
  a.world.disk.journal = some journal ∧ journal.archivedVersions = archived ∧
    ∃ since, a.world.settled = since ++ base

def Archived (a : Archive Content) : Prop :=
  (∃ journal, Pending archived base journal a) ∨
    a.world.disk.journal = none ∧ (∃ since, a.world.settled = since ++ base) ∧
      (TargetProved base a.world → Covers a.history archived)

def Resolved (journal : Journal Files) (verdict : Verdict) (a : Archive Content) : Prop :=
  Pending archived base journal a ∧ Decided base journal.prepared verdict a.world.settled

def Done (journal : Journal Files) (verdict : Verdict) (a : Archive Content) : Prop :=
  Resolved archived base journal verdict a ∧
    (verdict.outcome = .applied → Covers a.history archived)

class Resting (P : Archive Content → Prop) : Prop where
  congr : ∀ a a' : Archive Content, a'.world.disk.journal = a.world.disk.journal →
    a'.world.settled = a.world.settled →
    a'.history = a.history → P a → P a'
  crash : ∀ a, P a → Archived archived base a

variable {archived base}

abbrev Leaves {α : Type} (schema : Schema Files Content) (process : Owner) (archived : Versions)
    (base : List (Settlement Content)) (Q : α → Archive Content → Prop) (p : Agent Files α)
    (a : Archive Content) : Prop :=
  Safe (archiving schema process) (Archived archived base) Q (fun _ => Archived archived base) p a

instance Resting.durable [hr : Resting archived base P] :
    Durable (archiving schema process) (Archived archived base) P := by
  refine ⟨fun event a ha => ?_, hr.crash⟩
  obtain ⟨hdisk, hsettled⟩ := @env_frame _ _ schema process event a.world
  exact hr.congr a _ (congrArg Disk.journal hdisk) hsettled rfl ha

instance resting_pending : Resting archived base (Pending archived base journal) := by
  refine ⟨fun a a' hjournal hsettled _ ha => ?_, fun a ha => .inl ⟨journal, ha⟩⟩
  rw [Pending, hjournal, hsettled]
  exact ha

instance resting_archived : Resting archived base (Archived archived base) := by
  refine ⟨fun a a' hjournal hsettled hhistory ha => ?_, fun _ ha => ha⟩
  have hproved : TargetProved base a'.world ↔ TargetProved base a.world := by
    rw [TargetProved, hsettled, TargetProved]
  obtain ⟨journal, ha⟩ | ⟨hnone, hsince, hcovers⟩ := ha
  · exact .inl ⟨journal, resting_pending.congr a a' hjournal hsettled hhistory ha⟩
  refine .inr ⟨hjournal.trans hnone, hsettled ▸ hsince, fun hp => ?_⟩
  rw [hhistory]
  exact hcovers (hproved.mp hp)

instance resting_resolved : Resting archived base (Resolved archived base journal verdict) := by
  refine ⟨fun a a' hjournal hsettled hhistory ha => ?_, fun a ha => .inl ⟨journal, ha.1⟩⟩
  refine ⟨resting_pending.congr a a' hjournal hsettled hhistory ha.1, ?_⟩
  rw [hsettled]
  exact ha.2

instance resting_done : Resting archived base (Done archived base journal verdict) := by
  refine ⟨fun a a' hjournal hsettled hhistory ha => ?_, fun a ha => .inl ⟨journal, ha.1.1⟩⟩
  refine ⟨resting_resolved.congr a a' hjournal hsettled hhistory ha.1, fun happlied => ?_⟩
  rw [hhistory]
  exact ha.2 happlied

def rests : Op Files → Bool
  | .writeJournal _ | .removeJournal | .settle _ _ | .versions _ => false
  | _ => true

theorem restore_frame (file : File) (record : Option FileRecord) (w : World Files Content)
    (choice : Choice) :
    (w.write (Disk.restore process file record) choice).2.disk.journal = w.disk.journal ∧
      (w.write (Disk.restore process file record) choice).2.settled = w.settled := by
  obtain heq | ⟨heq, -⟩ := write_cases (Disk.restore process file record) w choice
  · rw [heq]
    cases file with
    | target path => exact ⟨rfl, rfl⟩
    | current => exact ⟨rfl, rfl⟩
  · rw [heq]
    exact ⟨rfl, rfl⟩

theorem respond_rests {op : Op Files} (hr : rests op = true) (choice : Choice × Bool)
    (a : Archive Content) :
    (respond schema process choice op a).2.world.disk.journal = a.world.disk.journal ∧
      (respond schema process choice op a).2.world.settled = a.world.settled ∧
        (respond schema process choice op a).2.history = a.history := by
  cases hq : isQuiet op with
  | true =>
    obtain ⟨hdisk, hsettled⟩ := @respond_frame _ _ schema process op hq choice.1 a.world
    refine ⟨congrArg Disk.journal hdisk, hsettled, ?_⟩
    cases op with
    | versions values => cases hr
    | _ => rfl
  | false =>
    cases op with
    | restore file record =>
      obtain ⟨hjournal, hsettled⟩ := @restore_frame _ process file record a.world choice.1
      exact ⟨hjournal, hsettled, rfl⟩
    | writeJournal | removeJournal | settle => cases hr
    | _ => cases hq

section Rests

variable [hP : Resting archived base P]

theorem safe_rests (op : Op Files) (hr : rests op = true) (ha : P a) :
    Safe (archiving schema process) (Archived archived base) (fun _ => P) (fun _ => P)
    (ask op) a := by
  refine Safe.ask_leaving op ha (fun choice a ha => ?_)
  obtain ⟨hjournal, hsettled, hhistory⟩ := @respond_rests _ schema process op hr choice a
  exact hP.congr a _ hjournal hsettled hhistory ha

theorem keeps_rests (op : Op Files) (hr : rests op = true) :
    Keeps (archiving schema process) (Archived archived base) P op :=
  fun _ ha => (safe_rests op hr ha).mono (fun _ h => h) (fun _ _ h => h) (fun _ => hP.crash)

instance steady_of_resting : Steady (archiving schema process) (Archived archived base) P where
  capture path := keeps_rests (.capture (.target path)) rfl
  restore path record := keeps_rests (.restore (.target path) record) rfl

instance reading_of_resting : Reading (archiving schema process) (Archived archived base) P where
  capture file := keeps_rests (.capture file) rfl
  readAliases := keeps_rests .readAliases rfl
  mergeAliases config aliases := keeps_rests (.mergeAliases config aliases) rfl

end Rests

theorem safe_conclude (ha : Pending archived base journal a)
    (hv : verdict.outcome = .applied ↔ verdict.receipt.contentHash = journal.prepared.targetHash) :
    Leaves schema process archived base (Resolved archived base journal)
    (conclude journal.prepared verdict) a := by
  apply Safe.seq (Q := fun _ => Resolved archived base journal verdict)
  · refine Safe.ask (Op.settle _ _) ha ?_ ?_
    · rintro choice a _ ⟨hjournal, harchived, since, hsince⟩ _
      have hsettled := congrArg (List.cons
        (⟨journal.prepared, verdict, a.world.core.content⟩ : Settlement Content)) hsince
      exact ⟨⟨hjournal, harchived, _ :: since, hsettled⟩, ⟨_, since, hsettled, rfl, rfl⟩, hv⟩
    · intro choice a failure _ herr
      cases herr
  · intro _ a ha
    exact Safe.ret ha

theorem safe_talk (op : Op Files) (htalk : talks op = true) (a : Archive Content)
    (ha : Pending archived base journal a) :
    Safe (archiving schema process) (Archived archived base)
    (fun _ => Pending archived base journal)
      (fun _ => Pending archived base journal) (ask op) a := by
  refine safe_rests op ?_ ha
  cases op with
  | checkMode | status | apply | fence => rfl
  | _ => cases htalk

theorem safe_recordReceipt (receipt : Status) (ha : Resolved archived base journal verdict a) :
    Leaves schema process archived base (fun _ => Done archived base journal verdict)
      (recordReceipt codec journal.toJournalBody receipt) a := by
  apply Safe.seq (keeps_rests .readAliases rfl a ha)
  intro previous a ha
  apply Safe.seq (keeps_rests (.bindOwners previous) rfl a ha)
  intro _ a ha
  apply Safe.seq (keeps_rests (.bindOwners journal.authAliases) rfl a ha)
  intro _ a ha
  apply Safe.seq (Q := fun _ => Done archived base journal verdict)
  · refine Safe.ask (Op.versions _) ha ?_ ?_
    · intro choice a _ ha hok
      refine ⟨ha, fun _ => ?_⟩
      rw [← ha.1.2.1]
      obtain ⟨course, done⟩ := choice
      cases course with
      | fail failure => cases hok
      | _ => exact covers_raiseVersions a.history journal.archivedVersions
    · exact fun choice a _ ha _ => .inl ⟨journal, ha.1⟩
  · intro _ a ha
    exact keeps_rests (.restore .current _) rfl a ha

theorem safe_removeJournal (ha : Done archived base journal verdict a) :
    Maintains (archiving schema process) (Archived archived base) (ask .removeJournal) a := by
  refine Safe.ask_leaving Op.removeJournal ha ?_
  rintro ⟨choice, done⟩ a ha
  cases choice with
  | fail failure => exact .inl ⟨journal, ha.1.1⟩
  | _ =>
    refine .inr ⟨rfl, ha.1.1.2.2, fun hproved => ha.2 ?_⟩
    exact (Decided.targetProved_iff ha.1.2).mp hproved

theorem safe_readJournal (ha : Archived archived base a) :
    Leaves schema process archived base (Pending archived base) (ask .readJournal) a := by
  have hframe (choice : Choice × Bool) (a : Archive Content) :=
    @respond_rests _ schema process .readJournal rfl choice a
  refine Safe.ask Op.readJournal ha ?_ ?_
  · intro choice a journal ha hok
    obtain ⟨hjournal, hsettled, hhistory⟩ := hframe choice a
    refine resting_pending.congr a _ hjournal hsettled hhistory ?_
    have hstored : a.world.disk.journal = some journal := by
      simp only [archiving, VersionedTasks.respond, PublicationWorld.respond] at hok
      split at hok
      next stored hstored =>
        cases FencePrograms.unlessFailed_ok hok
        exact hstored
      next => cases hok
    obtain ⟨other, hother⟩ | ⟨hnone, -⟩ := ha
    · cases hother.1.symm.trans hstored
      exact hother
    · cases hnone.symm.trans hstored
  · intro choice a failure ha _
    obtain ⟨hjournal, hsettled, hhistory⟩ := hframe choice a
    exact resting_archived.congr a _ hjournal hsettled hhistory ha

theorem archiveFinding (schema : Schema Files Content) (process : Owner) (archived : Versions)
    (base : List (Settlement Content)) (journal : Journal Files) :
    Finding (archiving schema process) (Archived archived base) (Pending archived base journal)
    journal.config
      journal.prepared (fun _ => Pending archived base journal)
      (fun _ => Pending archived base journal) (fun _ => Pending archived base journal)
      (Resolved archived base journal) :=
  finding_of_talks safe_talk (fun _ _ ha hv => safe_conclude ha hv)

theorem archiveOutline (schema : Schema Files Content) (process : Owner) (codec : Codec Files)
    (archived : Versions) (base : List (Settlement Content)) :
    Outline (archiving schema process) (Archived archived base) codec (Pending archived base)
      (Resolved archived base) (Done archived base) where
  journalExists := keeps_rests .journalExists rfl
  enabled := keeps_rests .enabled rfl
  checkMode := keeps_rests .checkMode rfl
  readJournal := fun _ ha => safe_readJournal ha
  resolving := fun journal _ ha =>
    (archiveFinding schema process archived base journal).safe_resolve ha
  publishing := fun journal _ ha =>
    (archiveFinding schema process archived base journal).safe_publish ha
  receipt := fun _ verdict _ ha _ => safe_recordReceipt verdict.receipt ha
  oldReceipt := fun _ _ _ ha hunchanged => (keeps_rests (.restore .current _) rfl _
    ⟨ha, fun happlied => by cases hunchanged.symm.trans happlied⟩)
  removeJournal := fun _ _ _ ha => safe_removeJournal ha

def Fresh (base : List (Settlement Content)) (a : Archive Content) : Prop :=
  a.world.disk.journal = none ∧ a.world.settled = base

instance resting_fresh : Resting archived base (@Fresh Content base) := by
  refine ⟨fun a a' hjournal hsettled _ ha => ⟨hjournal.trans ha.1, hsettled.trans ha.2⟩,
    fun a ha => .inr ⟨ha.1, ?_, ?_⟩⟩
  · exact ⟨[], ha.2⟩
  · exact fun hproved => absurd hproved (not_targetProved ha.2)

variable {commit : Commit Files}

theorem safe_preparedFor (ha : Fresh base a) :
    Leaves schema process archived base (fun _ => Fresh base) (preparedFor commit) a := by
  unfold preparedFor
  split
  · exact safe_prepare_kept (keeps_rests .checkMode rfl)
      (fun config => keeps_rests (.preview config) rfl) ha
  · exact Safe.ret ha

theorem safe_writeJournal (harchived : journal.archivedVersions = archived) (ha : Fresh base a) :
    Leaves schema process archived base (fun _ => Pending archived base journal)
    (ask (.writeJournal journal)) a := by
  refine Safe.ask_writing (Op.writeJournal journal) ha (fun _ => resting_fresh.crash)
    (fun _ => resting_pending.crash) (fun choice a ha => ?_)
  refine (write_cases (Disk.setJournal (some journal)) a.world choice.1).imp (fun heq => ?_)
    (fun ⟨heq, hfailed⟩ => ?_)
  · change Pending archived base journal ⟨(a.world.write _ choice.1).2, a.history⟩
    rw [heq]
    exact ⟨rfl, harchived, [], ha.2⟩
  · exact ⟨congrArg (Archive.mk · a.history) heq, hfailed⟩

theorem safe_commitFiles (ha : Fresh base a) :
    Maintains (archiving schema process) (Archived commit.archivedVersions base)
    (commitFiles codec commit) a := by
  have hexists : Leaves schema process commit.archivedVersions base
      (fun pending a => pending = true ∧ Archived commit.archivedVersions base a ∨ pending = false ∧
        Fresh base a)
      (ask .journalExists) a := by
    refine (keeps_rests .journalExists rfl a ha).mono (fun _ h => h) (fun pending a ha => ?_)
      (fun _ _ h => h)
    cases pending with
    | true => exact .inl ⟨rfl, resting_fresh.crash a ha⟩
    | false => exact .inr ⟨rfl, ha⟩
  exact (archiveOutline schema process codec commit.archivedVersions base).course.safe_commitFiles
    (safe_openJournal (keeps_rests .journalExists rfl) hexists (fun _ ha => safe_preparedFor ha)
      (fun journal _ _ harchived ha => safe_writeJournal harchived ha))

theorem safe_lifted {α : Type} {C : World Files Content → Prop} {Q : α → World Files Content → Prop}
    {E : Failure → World Files Content → Prop} {p : Agent Files α}
    (hp : Safe (volatile schema process) C Q E p a.world) :
    Safe (archiving schema process) (fun a => C a.world) (fun r a => Q r a.world)
    (fun e a => E e a.world) p a :=
  Safe.lift Archive.world Prod.fst (fun _ _ _ => ⟨rfl, rfl⟩) (fun event _ => ⟨event, rfl⟩) hp

section Steps

variable {env : Env Content} {records : List Record} {s : State Content} {current updated : Files}
  {related : Dict String String} {disk₀ : Disk Files}

abbrev commitBy (env : Env Content) := commitOf env.files env.socksTag

structure Publishing (env : Env Content) (current updated : Files) (related : Dict String String)
    (disk₀ : Disk Files) (records log : List Record) (base : List (Settlement Content))
    (a : Archive Content) : Prop where
  files : diskFiles env.files disk₀ = some current
  crashed : Crashed env.process env.codec (commitBy env current updated related) disk₀ base a.world
  archived : Archived (archivedVersions updated) base a
  before : Tallied a.history current.versions log
  after : Tallied a.history updated.versions (records ++ log)

structure Rested (env : Env Content) (log : List Record) (a : Archive Content) : Prop where
  journal : a.world.disk.journal = none
  tallied : ∀ files, diskFiles env.files a.world.disk = some files →
    Tallied a.history files.versions log

structure Inv (env : Env Content) (s : State Content) : Prop where
  increasing : Increasing s.log
  accounted : Accounted s.log s.committed
  rested : s.pending = none → Rested env s.log s.archive
  publishing : ∀ batch base, s.pending = some (batch, base) →
    s.archive.world.disk.journal.isSome = true ∧
    Accounted batch.records batch.items ∧
    ∃ current updated related disk₀,
    Publishing env current updated related disk₀ batch.records s.log base s.archive

theorem proved_iff {w : World Files Content} (hsince : ∃ since, w.settled = since ++ base) :
    proved base w = true ↔ TargetProved base w := by
  obtain ⟨since, hsince⟩ := hsince
  cases since with
  | nil =>
    have hlength : ¬base.length < w.settled.length := by simp [hsince]
    refine ⟨fun hproved => ?_, fun hproved => absurd hproved (not_targetProved hsince)⟩
    simp [proved, hlength] at hproved
  | cons entry rest =>
    constructor
    · intro hproved
      simp only [proved, hsince, List.cons_append, List.head?_cons, Option.any_some,
        Bool.and_eq_true, decide_eq_true_eq] at hproved
      exact ⟨entry, rest, hsince, hproved.2⟩
    rintro ⟨other, rest', hother, htarget⟩
    obtain ⟨rfl, -⟩ := List.cons.inj (hsince.symm.trans hother)
    simp only [proved, hsince, List.cons_append, List.head?_cons, Option.any_some, Bool.and_eq_true,
      decide_eq_true_eq, List.length_cons, List.length_append]
    exact ⟨by omega, htarget⟩

theorem diskFiles_after {disk : Disk Files}
    (h : disk.files = afterFiles env.process (commitBy env current updated related) disk₀.files) :
    diskFiles env.files disk = some (published env.socksTag updated) := by
  have hconfig : (disk.files env.files.configPath).map (·.data) =
      some (env.files.configText (published env.socksTag updated)) := by
    have hget : (commitBy env current updated related).targets.get? env.files.configPath =
        some (env.files.configText (published env.socksTag updated)) := by
      simp [commitOf, Dict.get?_set, env.files.distinct]
    simp [h, afterFiles, hget]
  have hregistry : (disk.files env.files.registryPath).map (·.data) =
      some (env.files.registryText (published env.socksTag updated)) := by
    have hget : (commitBy env current updated related).targets.get? env.files.registryPath =
        some (env.files.registryText (published env.socksTag updated)) := by
      simp [commitOf, Dict.get?_set]
    simp [h, afterFiles, hget]
  rw [diskFiles, hconfig, hregistry, env.files.load_text]

theorem userVersion_published {socksTag : String}
    (hcovers : Covers history (archivedVersions files)) (userId : String) :
    userVersion history files.versions userId ≤
    userVersion history (published socksTag files).versions userId := by
  rw [userVersion, userVersion, published, Dict.get?_filterKeys]
  by_cases hactive : userId ∈ discoverUserIds files.node.inbounds files.node.users
  · simp [hactive]
  cases hget : files.versions.get? userId with
  | none => simp
  | some version =>
    have harchived : (archivedVersions files).get? userId = some version := by
      simp [archivedVersions, Dict.get?_filterKeys, hactive, hget]
    have hle := hcovers userId version harchived
    simp only [Option.getD_some]
    omega

theorem Publishing.settle {batch : Batch}
    (h : Publishing env current updated related disk₀ batch.records s.log base a)
    (hlog : Accounted s.log s.committed) (hbatch : Accounted batch.records batch.items) :
    Inv env (s.settle batch base a) := by
  unfold State.settle
  split
  next hsome =>
    refine ⟨h.before.increasing, hlog, nofun, ?_⟩
    rintro _ _ ⟨⟩
    exact ⟨hsome, hbatch, current, updated, related, disk₀, h⟩
  next hnone =>
    dsimp only
    rw [Bool.not_eq_true, Option.isSome_eq_false_iff, Option.isNone_iff_eq_none] at hnone
    have hfinished : Finished env.process env.codec (commitBy env current updated related) disk₀
        base a.world := by
      obtain ⟨journal, hjournal, -⟩ | hfinished := h.crashed
      · cases hnone.symm.trans hjournal.1
      · exact hfinished
    obtain ⟨hsince, hcovers⟩ : (∃ since, a.world.settled = since ++ base) ∧
        (TargetProved base a.world → Covers a.history (archivedVersions updated)) := by
      obtain ⟨journal, hjournal, -⟩ | ⟨-, hsince, hcovers⟩ := h.archived
      · cases hnone.symm.trans hjournal
      · exact ⟨hsince, hcovers⟩
    by_cases hproved : TargetProved base a.world
    · rw [if_pos ((proved_iff hsince).mpr hproved)]
      refine ⟨h.after.increasing, hlog.append hbatch,
        fun _ => ⟨hnone, fun files hfiles => ?_⟩, nofun⟩
      cases (diskFiles_after (hfinished.after hproved).files).symm.trans hfiles
      exact h.after.mono (userVersion_published (hcovers hproved))
    rw [if_neg (fun htrue => hproved ((proved_iff hsince).mp htrue))]
    refine ⟨h.before.increasing, hlog, fun _ => ⟨hnone, fun files hfiles => ?_⟩, nofun⟩
    rw [diskFiles, (hfinished.before hproved).files] at hfiles
    cases h.files.symm.trans hfiles
    exact h.before

theorem userVersion_mono (h : ∀ userId,
    (history.get? userId).getD 0 ≤ (history'.get? userId).getD 0) (userId : String) :
    userVersion history versions userId ≤ userVersion history' versions userId :=
  max_le_max le_rfl (h userId)

variable (schedule : List (Action (archiving env.schema env.process)))

theorem publishing_begun (hrested : a.world.disk.journal = none)
    (hcurrent : diskFiles env.files a.world.disk = some current)
    (hbefore : Tallied a.history current.versions log)
    (hafter : Tallied a.history updated.versions (records ++ log)) :
    Publishing env current updated related a.world.disk records log a.world.settled
      (session (archiving env.schema env.process)
        (commitFiles env.codec (commitBy env current updated related), schedule) a) := by
  have hmono (versions : Dict String Nat) := @userVersion_mono a.history _ versions
    (session_mono (commitFiles env.codec (commitBy env current updated related)) schedule)
  let attempt : Attempt Files Content :=
    ⟨env.process, env.codec, commitBy env current updated related, a.world.disk, a.world.settled⟩
  exact ⟨hcurrent, (safe_lifted (@CrashAtomicity.safe_commitFiles _ _ _ _ attempt ⟨hrested⟩
    ⟨rfl, rfl⟩) schedule).1, (safe_commitFiles ⟨hrested, rfl⟩ schedule).1, hbefore.mono (hmono _),
    hafter.mono (hmono _)⟩

theorem Publishing.recovered (h : Publishing env current updated related disk₀ records log base a) :
    Publishing env current updated related disk₀ records log base
      (session (archiving env.schema env.process) (recoverLocked env.codec, schedule) a) := by
  have hmono (versions : Dict String Nat) := @userVersion_mono a.history _ versions
    (session_mono (recoverLocked env.codec) schedule)
  let attempt : Attempt Files Content :=
    ⟨env.process, env.codec, commitBy env current updated related, disk₀, base⟩
  exact ⟨h.files, (safe_lifted ((crashCourse _ attempt).safe_recoverLocked h.crashed) schedule).1,
    ((archiveOutline env.schema env.process env.codec _ base).course.safe_recoverLocked h.archived
      schedule).1,
    h.before.mono (hmono _), h.after.mono (hmono _)⟩

theorem Inv.pending_eq_none (h : Inv env s) (hnone : s.archive.world.disk.journal = none) :
    s.pending = none := by
  cases hp : s.pending with
  | none => rfl
  | some entry =>
    obtain ⟨hsome, -⟩ := h.publishing entry.1 entry.2 hp
    rw [hnone] at hsome
    cases hsome

theorem Inv.batch (h : Inv env s) (items : List (WriteQueue.TaskId × Work))
    (related : Dict String String) :
    Inv env (step env (.batch items related schedule) s) := by
  simp only [step]
  split
  · exact h
  next hnone =>
    rw [Bool.not_eq_true, Option.isSome_eq_false_iff, Option.isNone_iff_eq_none] at hnone
    have hpending := h.pending_eq_none hnone
    split
    · exact h
    next current hcurrent =>
      split
      · exact h
      next updated records hbatch =>
        have hbefore := (h.rested hpending).tallied current hcurrent
        have hafter := runBatch_tallied hbefore hbatch
        have haccounted := runBatch_accounted hbatch
        split
        next hsame =>
          obtain ⟨rfl, -⟩ := hsame
          refine ⟨hafter.increasing, h.accounted.append haccounted,
            fun _ => ⟨hnone, fun files hfiles => ?_⟩, fun batch base hp => ?_⟩
          · cases hcurrent.symm.trans hfiles
            exact hafter
          · cases hpending.symm.trans hp
        next =>
          refine @Publishing.settle _ _ _ _ s current updated related s.archive.world.disk
            ⟨items, records⟩ ?_ h.accounted haccounted
          exact publishing_begun schedule hnone hcurrent hbefore hafter

theorem Rested.recovered (h : Rested env log a) :
    Rested env log (session (archiving env.schema env.process)
      (recoverLocked env.codec, schedule) a) := by
  have hdurable : Durable (archiving env.schema env.process) (Rested env log) (Rested env log) := by
    refine ⟨fun event a ha => ?_, fun _ ha => ha⟩
    obtain ⟨hdisk, -⟩ := @env_frame _ _ env.schema env.process event a.world
    refine ⟨(congrArg Disk.journal hdisk).trans ha.journal, fun files hfiles => ha.tallied files ?_⟩
    rw [← hfiles]
    exact (congrArg (diskFiles env.files) hdisk).symm
  have hexists : Safe (archiving env.schema env.process) (Rested env log)
      (fun pending a => pending = false ∧ Rested env log a) (fun _ => Rested env log)
      (ask .journalExists) a := by
    refine Safe.ask_reading Op.journalExists (fun _ _ => rfl) h (fun _ _ ha => ha)
      (fun choice a pending ha hok => ?_)
    cases hok
    exact ⟨by rw [ha.journal]; rfl, ha⟩
  exact (@safe_recoverLocked_idle _ _ _ _ env.codec a (fun _ => Rested env log) hdurable
    hexists schedule).1

theorem Inv.recover (h : Inv env s) : Inv env (step env (.recover schedule) s) := by
  simp only [step]
  split
  next hpending =>
    exact ⟨h.increasing, h.accounted, fun _ => (h.rested hpending).recovered schedule,
      fun batch base hp => by
      cases hpending.symm.trans hp⟩
  next batch base hpending =>
    obtain ⟨-, hbatch, current, updated, related, disk₀, hpublishing⟩ :=
      h.publishing batch base hpending
    exact (hpublishing.recovered schedule).settle h.accounted hbatch

theorem Inv.step (h : Inv env s) (action : Step env) : Inv env (step env action s) := by
  cases action with
  | batch items related schedule => exact h.batch schedule items related
  | recover schedule => exact h.recover schedule

theorem Inv.run {steps : List (Step env)} (h : Inv env s) :
    Inv env (run (VersionedTasks.step env) steps s) := by
  induction steps generalizing s with
  | nil => exact h
  | cons action steps ih => exact ih (h.step action)

theorem length_expecting (h : Increasing log) (userId : String) (expected : Nat) :
    (log.filter (fun record => record.userId = userId ∧
      record.expected = some expected)).length ≤ 1 := by
  have hpairs : (log.filter (fun record => record.userId = userId ∧
      record.expected = some expected)).Pairwise (fun _ _ => False) := by
    refine (List.Pairwise.filter _ h).imp_of_mem (fun {later earlier} hlater hearlier hpair => ?_)
    obtain ⟨huser, hlater⟩ := of_decide_eq_true (List.mem_filter.mp hlater).2
    obtain ⟨huser', hearlier⟩ := of_decide_eq_true (List.mem_filter.mp hearlier).2
    exact (hpair (huser.trans huser'.symm)).2 expected hearlier hlater
  generalize log.filter (fun record => record.userId = userId ∧ record.expected = some expected) =
    list at hpairs
  cases list with
  | nil => exact Nat.zero_le 1
  | cons first rest =>
    cases rest with
    | nil => exact le_rfl
    | cons second rest => exact absurd List.mem_cons_self ((List.pairwise_cons.mp hpairs).1 second)

/-- In every run, each user that a committed item operates on has its record, the version in it is
above all that were given to the user before, and of the committed items at most one expected a
given version of a user. -/
theorem user_versions_increase (env : Env Content) (a : Archive Content) (steps : List (Step env)) :
    let s := run (VersionedTasks.step env) steps (State.start a)
    Increasing s.log ∧ s.log.map Record.toDemand = (s.committed.flatMap demands).reverse ∧
      ∀ userId expected, ((s.committed.flatMap demands).filter
        (fun demand => demand.userId = userId ∧ demand.expected = some expected)).length ≤ 1 := by
  intro s
  have hstart : Inv env (State.start a) :=
    ⟨List.Pairwise.nil, rfl, fun _ =>
      ⟨rfl, fun files _ => ⟨List.Pairwise.nil, nofun, nofun⟩⟩, nofun⟩
  have hs : Inv env s := hstart.run
  have hlog : s.log.map Record.toDemand = (s.committed.flatMap demands).reverse := hs.accounted
  refine ⟨hs.increasing, hlog, fun userId expected => ?_⟩
  have hlength := length_expecting hs.increasing userId expected
  rw [← List.length_reverse, ← List.filter_reverse, ← hlog, List.filter_map, List.length_map]
  exact hlength

end Steps

section Example

instance countableChar : Countable Char :=
  Function.Injective.countable (f := Char.toNat) (fun a b h => by simpa using congrArg Char.ofNat h)

instance countableString : Countable String :=
  Function.Injective.countable (f := String.toList) (fun _ _ h => String.toList_inj.mp h)

instance {κ α : Type} [Countable κ] [Countable α] : Countable (Dict κ α) := by
  refine Function.Injective.countable (f := Dict.entries) ?_
  rintro ⟨a, _⟩ ⟨b, _⟩ h
  cases h
  rfl

deriving instance Countable for Login
deriving instance Countable for InboundUser
deriving instance Countable for Inbound
deriving instance Countable for OutboundType
deriving instance Countable for Outbound
deriving instance Countable for AuthUser
deriving instance Countable for RuleAction
deriving instance Countable for Rule
deriving instance Countable for Metadata
deriving instance Countable for Node
deriving instance Countable for Listener
deriving instance Countable for Files

def noAlice : Files := ⟨{}, [], Dict.empty⟩

def withAlice (version : Nat) : Files :=
  ⟨{ users := Dict.empty.set "alice" {} }, [], Dict.empty.set "alice" version⟩

noncomputable def filesChars (files : Files) : List Char :=
  if files = noAlice then ['0']
  else if files = withAlice 1 then ['1']
  else if files = withAlice 2 then ['2']
  else 'x' :: List.replicate ((exists_injective_nat Files).choose files) 'x'

noncomputable def filesText (files : Files) : String := String.ofList (filesChars files)

theorem filesText_injective : Function.Injective filesText := by
  intro a b h
  have hchars : filesChars a = filesChars b := by simpa [filesText] using congrArg String.toList h
  unfold filesChars at hchars
  split_ifs at hchars <;> simp_all [(exists_injective_nat Files).choose_spec.eq_iff]

noncomputable def plainFiles : FileCodec where
  configPath := "config.json"
  registryPath := "registry.json"
  distinct := by decide
  configText := filesText
  registryText := filesText
  load config _ := config.bind (Function.partialInv filesText)
  load_text := Function.partialInv_left filesText_injective

def tallySchema : Schema Files Nat where
  configObject files := some ((files.versions.get? "alice").getD 0)
  fingerprint content := String.ofList (List.replicate 64 (Char.ofNat (48 + content)))
  planUserUpdate _ _ := true

noncomputable def tallyEnv : Env Nat :=
  ⟨tallySchema, (0, 0), ⟨fun _ => "", fun _ _ _ => ""⟩, plainFiles, "socks"⟩

noncomputable def quietArchive : Archive Nat where
  world :=
    { core := { instanceId := "i", revision := 0, content := 0 }
      flight := []
      disk :=
        { files := fun path =>
            if path = "config.json" ∨ path = "registry.json" then
              some ⟨filesText noAlice, 0o600, (0, 0)⟩
            else none
          current := none
          journal := none }
      socket := "/run/core.sock"
      settled := [] }
  history := Dict.empty

def create : Command := ⟨"alice", some 0,
    fun node => .ok { node with users := node.users.set "alice" {} }⟩

def touch : Command := ⟨"alice", some 1, .ok⟩

def granted (n : Nat) : List (Action (archiving tallySchema (0, 0))) :=
  List.replicate n (.call (.merged Dict.empty, true))

theorem diskFiles_eq {disk : Disk Files} {files : Files}
    (h : ∀ path ∈ ["config.json", "registry.json"],
      (disk.files path).map (·.data) = some (filesText files)) :
    diskFiles plainFiles disk = some files := by
  rw [diskFiles, h plainFiles.configPath (by decide), h plainFiles.registryPath (by decide)]
  exact plainFiles.load_text files

def firstBatch : Batch := ⟨[(1, .task [create])], [⟨⟨1, "alice", some 0⟩, 1⟩]⟩

def secondBatch : Batch := ⟨[(2, .task [touch])], [⟨⟨2, "alice", some 1⟩, 2⟩]⟩

/-- Alice is created; a task on them is published, stopped and recovered; another one comes too
late. -/
def aliceRun : List (Step tallyEnv) :=
  [.batch firstBatch.items Dict.empty (granted 40),
    .batch secondBatch.items Dict.empty (granted 20), .recover (granted 40),
    .batch [(3, .task [touch])] Dict.empty (granted 40)]

def created (a : Archive Nat) (pending : Option (Batch × List (Settlement Nat))) : State Nat :=
  ({ archive := a, pending := pending } : State Nat).commit firstBatch

@[irreducible] noncomputable def publish (before after : Files) (n : Nat) (a : Archive Nat) :
    Archive Nat :=
  session (archiving tallyEnv.schema tallyEnv.process)
    (commitFiles tallyEnv.codec (commitOf tallyEnv.files tallyEnv.socksTag before after Dict.empty),
      granted n) a

def Holds (files : Files) (a : Archive Nat) : Prop :=
  a.world.disk.journal.isNone = true ∧ a.history = Dict.empty ∧
    ∀ path ∈ ["config.json", "registry.json"],
    (a.world.disk.files path).map (·.data) = some (filesText files)

noncomputable instance (files : Files) (a : Archive Nat) : Decidable (Holds files a) :=
  inferInstanceAs (Decidable (_ ∧ _ ∧ _))

theorem alice_published :
    let a₁ := publish noAlice (withAlice 1) 40 (State.start quietArchive).archive
    let a₂ := publish (withAlice 1) (withAlice 2) 20 a₁
    let a₃ := session (archiving tallyEnv.schema tallyEnv.process)
      (recoverLocked tallyEnv.codec, granted 40) a₂
    (Holds (withAlice 1) a₁ ∧ proved [] a₁.world = true) ∧
      a₂.world.disk.journal.isSome = true ∧
      Holds (withAlice 2) a₃ ∧ proved a₁.world.settled a₃.world = true := by
  decide +kernel

section

variable {s : State Nat} {before after : Files} {items : List (WriteQueue.TaskId × Work)}
  {records : List Record} {n : Nat}

theorem step_publish {a : Archive Nat} (h : Holds before s.archive)
    (hbatch : runBatch Dict.empty items before = .ok ⟨after, records⟩) (hchanged : after ≠ before)
    (ha : publish before after n s.archive = a) :
    VersionedTasks.step tallyEnv (.batch items Dict.empty (granted n)) s =
      s.settle ⟨items, records⟩ s.archive.world.settled a := by
  obtain ⟨hjournal, hhistory, hfiles⟩ := h
  have hdisk : diskFiles tallyEnv.files s.archive.world.disk = some before := diskFiles_eq hfiles
  rw [← ha, publish]
  simp only [VersionedTasks.step, Option.isNone_iff_eq_none.mp hjournal, Option.isSome_none,
    Bool.false_eq_true, if_false, hdisk, hhistory, hbatch, hchanged, false_and]

theorem step_recover {a : Archive Nat} {batch : Batch} {base : List (Settlement Nat)}
    (hpending : s.pending = some (batch, base))
    (ha : session (archiving tallyEnv.schema tallyEnv.process)
    (recoverLocked tallyEnv.codec, granted 40) s.archive = a) :
    VersionedTasks.step tallyEnv (.recover (granted 40)) s = s.settle batch base a := by
  simp only [VersionedTasks.step, hpending, ha]

theorem step_refused (h : Holds before s.archive) {message : String}
    (hbatch : runBatch Dict.empty items before = .error message) :
    VersionedTasks.step tallyEnv (.batch items Dict.empty (granted n)) s = s := by
  obtain ⟨hjournal, hhistory, hfiles⟩ := h
  have hdisk : diskFiles tallyEnv.files s.archive.world.disk = some before := diskFiles_eq hfiles
  simp only [VersionedTasks.step, Option.isNone_iff_eq_none.mp hjournal, Option.isSome_none,
    Bool.false_eq_true, if_false, hdisk, hhistory, hbatch]

theorem settle_proved {batch : Batch} {base : List (Settlement Nat)} {a : Archive Nat}
    {files : Files} (h : Holds files a) (hproved : proved base a.world = true) :
    s.settle batch base a = ({ s with
      archive := a, pending := none } : State Nat).commit batch := by
  have hjournal : ¬a.world.disk.journal.isSome = true := by simp [Option.isNone_iff_eq_none.mp h.1]
  exact (if_neg hjournal).trans (if_pos hproved)

end

theorem run_alice {a₁ a₂ a₃ : Archive Nat}
    (h₁ : publish noAlice (withAlice 1) 40 (State.start quietArchive).archive = a₁)
    (h₂ : publish (withAlice 1) (withAlice 2) 20 a₁ = a₂)
    (h₃ : session (archiving tallyEnv.schema tallyEnv.process)
      (recoverLocked tallyEnv.codec, granted 40) a₂ = a₃)
    (hfirst : Holds (withAlice 1) a₁) (hproved : proved [] a₁.world = true)
    (hstopped : a₂.world.disk.journal.isSome = true) (hrecovered : Holds (withAlice 2) a₃)
    (hproved' : proved a₁.world.settled a₃.world = true) :
    run (VersionedTasks.step tallyEnv) aliceRun (State.start quietArchive) =
    (created a₃ none).commit secondBatch := by
  have hstart : Holds noAlice (State.start quietArchive).archive := by decide +kernel
  have hcreate : runBatch Dict.empty firstBatch.items noAlice =
    .ok ⟨withAlice 1, firstBatch.records⟩ := rfl
  have htouch : runBatch Dict.empty secondBatch.items (withAlice 1) =
    .ok ⟨withAlice 2, secondBatch.records⟩ := rfl
  have hlate : runBatch Dict.empty [(3, .task [touch])] (withAlice 2) =
    .error "user version changed; refresh before submitting a new task" := rfl
  have hstep₁ : VersionedTasks.step tallyEnv (.batch firstBatch.items Dict.empty (granted 40))
      (State.start quietArchive) = created a₁ none :=
    (step_publish hstart hcreate (by decide) h₁).trans (settle_proved hfirst hproved)
  have hstep₂ : VersionedTasks.step tallyEnv (.batch secondBatch.items Dict.empty (granted 20))
      (created a₁ none) =
      created a₂ (some (secondBatch, a₁.world.settled)) :=
    (step_publish hfirst htouch (by decide) h₂).trans (if_pos hstopped)
  have hstep₃ : VersionedTasks.step tallyEnv (.recover (granted 40))
      (created a₂ (some (secondBatch, a₁.world.settled))) =
      (created a₃ none).commit secondBatch := by
    rw [step_recover (s := created a₂ (some (secondBatch, a₁.world.settled))) rfl h₃]
    exact settle_proved hrecovered hproved'
  have hstep₄ : VersionedTasks.step tallyEnv (.batch [(3, .task [touch])] Dict.empty (granted 40))
      ((created a₃ none).commit secondBatch) = (created a₃ none).commit secondBatch :=
      step_refused hrecovered hlate
  rw [aliceRun, run, hstep₁, run, hstep₂, run, hstep₃, run, hstep₄, run]

theorem alice_versions :
    let s := run (VersionedTasks.step tallyEnv) aliceRun (State.start quietArchive)
    s.log = [⟨⟨2, "alice", some 1⟩, 2⟩, ⟨⟨1, "alice", some 0⟩, 1⟩] ∧
      s.committed.map Prod.fst = [1, 2] ∧
      Increasing s.log ∧ s.log.map Record.toDemand = (s.committed.flatMap demands).reverse ∧
      ∀ userId expected, ((s.committed.flatMap demands).filter
        (fun demand => demand.userId = userId ∧ demand.expected = some expected)).length ≤ 1 := by
  intro s
  obtain ⟨⟨hfirst, hproved⟩, hstopped, hrecovered, hproved'⟩ := alice_published
  have hs : s = _ := run_alice rfl rfl rfl hfirst hproved hstopped hrecovered hproved'
  exact ⟨congrArg State.log hs, congrArg (fun s => s.committed.map Prod.fst) hs,
    user_versions_increase tallyEnv quietArchive aliceRun⟩

end Example

end NodeManager.UserVersions
