import NodeManager.Publication

namespace NodeManager.PublicationOutline

open Programs RuntimeCore Publication

variable {W Config : Type} {S : System W (@Answer Config) Failure} {I P : W → Prop}
  {codec : Codec Config} {pending : Journal Config → W → Prop}
  {resolved done : Journal Config → Verdict → W → Prop} {w : W} {commit : Commit Config}

def Keeps (S : System W (@Answer Config) Failure) (I P : W → Prop) (op : Op Config) : Prop :=
  ∀ w, P w → Safe S I (fun _ => P) (fun _ => I) (ask op) w

class Steady (S : System W (@Answer Config) Failure) (I P : W → Prop) :
    Prop extends Durable S I P where
  capture : ∀ path, Keeps S I P (.capture (.target path))
  restore : ∀ path record, Keeps S I P (.restore (.target path) record)

/-- Where a publication begins and ends: with its journal, with the outcome and with the removal of
the journal. -/
structure Bounds (S : System W (@Answer Config) Failure) (I : W → Prop)
    (pending : Journal Config → W → Prop)
    (resolved done : Journal Config → Verdict → W → Prop) : Prop where
  journalExists : Keeps S I I .journalExists
  enabled : Keeps S I I .enabled
  checkMode : Keeps S I I .checkMode
  readJournal : ∀ w, I w → Safe S I pending (fun _ => I) (ask .readJournal) w
  resolving : ∀ journal w, pending journal w →
    Safe S I (resolved journal) (fun _ => I) (resolve journal.prepared) w
  removeJournal : ∀ journal verdict w, done journal verdict w → Maintains S I (ask .removeJournal) w

/-- An outline of a publication: `pending` while its journal is on the disk, `resolved` once the
outcome is known, `done` when only the journal is left to remove. -/
structure Outline (S : System W (@Answer Config) Failure) (I : W → Prop) (codec : Codec Config)
    (pending : Journal Config → W → Prop) (resolved done : Journal Config → Verdict → W → Prop) :
    Prop extends Bounds S I pending resolved done where
  publishing : ∀ journal w, pending journal w →
    Safe S I (resolved journal) (fun _ => I) (publish journal.config journal.prepared) w
  receipt : ∀ journal verdict w, resolved journal verdict w → verdict.outcome = .applied →
    Safe S I (fun _ => done journal verdict) (fun _ => I)
    (recordReceipt codec journal.toJournalBody verdict.receipt) w
  oldReceipt : ∀ journal verdict w, resolved journal verdict w → verdict.outcome = .unchanged →
    Safe S I (fun _ => done journal verdict) (fun _ => I)
    (ask (.restore .current journal.oldReceipt)) w

theorem safe_recordReceipt {R : W → Prop} {body : JournalBody Config} {receipt : Status}
    (hread : Keeps S I P .readAliases) (hbind : ∀ aliases, Keeps S I P (.bindOwners aliases))
    (hversions : ∀ values, Keeps S I P (.versions values))
    (hcurrent : ∀ w, P w → Safe S I (fun _ => R) (fun _ => I)
      (ask (.restore .current (some ⟨codec.receipt body.config receipt body.authAliases, 0o600,
        none⟩))) w) (hw : P w) :
    Safe S I (fun _ => R) (fun _ => I) (recordReceipt codec body receipt) w := by
  apply Safe.seq (hread w hw)
  intro previous w hw
  apply Safe.seq (hbind previous w hw)
  intro _ w hw
  apply Safe.seq (hbind body.authAliases w hw)
  intro _ w hw
  apply Safe.seq (hversions body.archivedVersions w hw)
  intro _ w hw
  exact hcurrent w hw

class Reading (S : System W (@Answer Config) Failure) (I P : W → Prop) :
    Prop extends Durable S I P where
  capture : ∀ file, Keeps S I P (.capture file)
  readAliases : Keeps S I P .readAliases
  mergeAliases : ∀ config aliases, Keeps S I P (.mergeAliases config aliases)

theorem Reading.safe_captureRecord (hr : Reading S I P) (file : File) (hw : P w) :
    Safe S I (fun _ => P) (fun _ => I) (captureRecord file) w := by
  apply Safe.seq (hr.capture file w hw)
  intro observed w hw
  exact Safe.ret hw

theorem Reading.safe_captureTargets (hr : Reading S I P) (targets : List (String × String))
    (hw : P w) :
    Safe S I (fun _ => P) (fun _ => I) (captureTargets targets) w := by
  induction targets generalizing w with
  | nil => exact Safe.ret hw
  | cons target targets ih =>
    apply Safe.seq (hr.safe_captureRecord (.target target.1) hw)
    intro old w hw
    apply Safe.seq (ih hw)
    intro rest w hw
    exact Safe.ret hw

def Opened (pending : Journal Config → W → Prop) (body : JournalBody Config) (w : W) : Prop :=
  ∃ journal : Journal Config, journal.toJournalBody = body ∧ pending journal w

instance durable_opened [hpending : ∀ journal, Durable S I (pending journal)]
    (body : JournalBody Config) :
    Durable S I (Opened pending body) := by
  refine ⟨?_, fun w ⟨journal, _, hw⟩ => (hpending journal).crash w hw⟩
  rintro event w ⟨journal, hbody, hw⟩
  exact ⟨journal, hbody, (hpending journal).stable event w hw⟩

theorem safe_recoverLocked_idle {Q : Option Verdict → W → Prop} [Durable S I (Q none)]
    (hexists : Safe S I (fun exists_ w => exists_ = false ∧ Q none w) (fun _ => I)
      (ask .journalExists) w) :
    Safe S I Q (fun _ => I) (recoverLocked codec) w := by
  apply Safe.seq hexists
  rintro exists_ w ⟨rfl, hw⟩
  exact Safe.ret hw

/-- An outline of how an outcome is found: what is known after a status, after a fence, and about a
receipt that proves the target. -/
structure Finding (S : System W (@Answer Config) Failure) (I P : W → Prop) (config : Config)
    (prepared : Prepared) (observed fenced held : Status → W → Prop)
    (R : Verdict → W → Prop) : Prop where
  checkMode : Keeps S I P .checkMode
  apply : ∀ w, P w → Safe S I (fun _ => P) (fun _ => P) (ask (.apply config prepared.expected)) w
  status : ∀ w, P w → Safe S I observed (fun _ => P) (ask .status) w
  seen : ∀ status w, observed status w → P w
  fence : ∀ status w, observed status w → Safe S I fenced (fun _ => P) (ask (.fence status)) w
  proved : ∀ receipt status w, observed status w → status.contentHash = prepared.targetHash →
    receipt.contentHash = prepared.targetHash → status.instanceId = receipt.instanceId →
    held receipt w
  applied : ∀ receipt w, held receipt w → receipt.contentHash = prepared.targetHash →
    Safe S I R (fun _ => I) (conclude prepared ⟨.applied, receipt⟩) w
  unchanged : ∀ status w, fenced status w → status.contentHash = prepared.previousHash →
    status.contentHash ≠ prepared.targetHash →
    Safe S I R (fun _ => I) (conclude prepared ⟨.unchanged, status⟩) w

def talks : Op Config → Bool
  | .checkMode | .status | .apply _ _ | .fence _ => true
  | _ => false

section Verdicts

variable {R : Verdict → W → Prop} {config : Config} {prepared : Prepared}
  {observed fenced held : Status → W → Prop}

theorem finding_of_talks [hP : Durable S I P]
    (htalk : ∀ op, talks op = true → ∀ w, P w → Safe S I (fun _ => P) (fun _ => P) (ask op) w)
    (hconclude : ∀ verdict w, P w →
      (verdict.outcome = .applied ↔ verdict.receipt.contentHash = prepared.targetHash) →
        Safe S I R (fun _ => I) (conclude prepared verdict) w) :
    Finding S I P config prepared (fun _ => P) (fun _ => P) (fun _ => P) R where
  checkMode w hw := (htalk .checkMode rfl w hw).mono (fun _ h => h) (fun _ _ h => h)
    (fun _ => hP.crash)
  apply := htalk (.apply config prepared.expected) rfl
  status := htalk .status rfl
  seen _ _ h := h
  fence status := htalk (.fence status) rfl
  proved _ _ _ h _ _ _ := h
  applied _ w hw htarget := hconclude _ w hw ⟨fun _ => htarget, fun _ => rfl⟩
  unchanged _ w hw _ hne := hconclude _ w hw ⟨nofun, fun heq => absurd heq hne⟩

def ProvedBy (prepared : Prepared) (P : W → Prop) (held : Status → W → Prop) (proof : Option Status)
    (w : W) : Prop :=
  match proof with
  | none => P w
  | some receipt => held receipt w ∧ receipt.contentHash = prepared.targetHash

variable [hP : Durable S I P]

instance durable_provedBy [∀ receipt, Durable S I (held receipt)] (proof : Option Status) :
    Durable S I (ProvedBy prepared P held proof) := by
  cases proof with
  | none => exact hP
  | some receipt => exact Durable.and_pure _

variable (f : Finding S I P config prepared observed fenced held R)
include f

theorem Finding.safe_putAndObserve [∀ receipt, Durable S I (held receipt)] (hw : P w) :
    Safe S I (ProvedBy prepared P held) (fun _ => P) (putAndObserve config prepared) w := by
  apply Safe.seq (f.apply w hw)
  intro receipt w hw
  split
  next hreceipt =>
    apply Safe.seq (f.status w hw)
    intro status w hw
    split
    next hstatus =>
      exact Safe.ret (Q := ProvedBy prepared P held) (a := some receipt)
        ⟨f.proved receipt status w hw hstatus.2.1 hreceipt.1 hstatus.1, hreceipt.1⟩
    · exact Safe.ret (Q := ProvedBy prepared P held) (a := none) (f.seen status w hw)
  · exact Safe.ret (Q := ProvedBy prepared P held) (a := none) hw

variable [Durable S I I] [hfenced : ∀ status, Durable S I (fenced status)]

theorem Finding.safe_tryFence {status : Status} (hw : observed status w) :
    Safe S I (fun answer w => match answer with
      | none => P w
      | some status => fenced status w) (fun _ => I) (tryFence status) w := by
  refine Safe.handle (Safe.seq (f.fence status w hw) ?_) ?_
  · intro status w hw
    exact Safe.ret hw
  intro failure w hw
  split_ifs
  · exact Safe.ret hw
  · exact Safe.raise (hP.crash w hw)

theorem Finding.safe_resolveRounds (rounds : Nat) (hw : P w) :
    Safe S I R (fun _ => I) (resolveRounds prepared rounds) w := by
  induction rounds generalizing w with
  | zero => exact Safe.raise (hP.crash w hw)
  | succ rounds ih =>
    apply Safe.seq ((f.status w hw).mono (fun _ h => h) (fun _ _ h => h) (fun _ => hP.crash))
    intro status w hw
    split
    next htarget =>
      exact f.applied status w (f.proved status status w hw htarget htarget rfl) htarget
    next htarget =>
      split
      · exact Safe.raise (hP.crash w (f.seen status w hw))
      next hprevious =>
        apply Safe.seq (f.safe_tryFence hw)
        intro answer w hw
        cases answer with
        | none => exact ih hw
        | some fenced =>
          dsimp only
          split
          · exact Safe.raise ((hfenced fenced).crash w hw)
          next hfence =>
            -- a fence that answers the old hash does not answer the target, or the status would
            -- have
            have hprev : fenced.contentHash = prepared.previousHash := by
              by_contra hne
              exact hfence (.inr (.inl hne))
            exact f.unchanged fenced w hw hprev
              (fun heq => htarget ((not_not.mp hprevious).trans (hprev.symm.trans heq)))

theorem Finding.safe_resolve (hw : P w) : Safe S I R (fun _ => I) (resolve prepared) w := by
  apply Safe.seq (f.checkMode w hw)
  intro socket w hw
  split
  · exact Safe.raise (hP.crash w hw)
  · exact f.safe_resolveRounds 3 hw

theorem Finding.safe_publish [∀ receipt, Durable S I (held receipt)] (hw : P w) :
    Safe S I R (fun _ => I) (publish config prepared) w := by
  apply Safe.seq (Q := ProvedBy prepared P held)
  · apply Safe.handle (f.safe_putAndObserve hw)
    intro failure w hw
    split
    · exact Safe.ret (Q := ProvedBy prepared P held) (a := none) hw
    · exact Safe.ret (Q := ProvedBy prepared P held) (a := none) hw
    · exact Safe.raise (hP.crash w hw)
  · intro proof w hw
    cases proof with
    | none => exact f.safe_resolve hw
    | some receipt => exact f.applied receipt w hw.1 hw.2

end Verdicts

variable [Durable S I I]

theorem safe_writeRecords [hs : Steady S I P] (records : Records) (hw : P w) :
    Safe S I (fun _ => P) (fun _ => I) (writeRecords records) w := by
  apply Safe.seq (Q := fun _ => P)
  · exact Safe.forEach (I := fun _ => P) hw (fun item _ w _ hw => hs.restore item.1 item.2 w hw)
  intro _ w hw
  refine Safe.forEach (I := fun _ => P) hw ?_
  intro item _ w _ hw
  apply Safe.seq (hs.capture item.1 w hw)
  intro observed w hw
  split_ifs
  · exact Safe.ret hw
  · exact Safe.raise (hs.crash w hw)

theorem safe_openJournal {start : W → Prop} {ready : Prepared → W → Prop}
    [∀ journal, Durable S I (pending journal)] [hready : ∀ prepared, Reading S I (ready prepared)]
    (hlook : Keeps S I I .journalExists)
    (hexists : Safe S I (fun exists_ w => (exists_ = true ∧ I w) ∨ (exists_ = false ∧ start w))
      (fun _ => I)
    (ask .journalExists) w)
    (hprepare : ∀ w, start w → Safe S I ready (fun _ => I) (preparedFor commit) w)
    (hwrite : ∀ (journal : Journal Config) w, journal.config = commit.config →
    journal.archivedVersions = commit.archivedVersions → ready journal.prepared w →
    Safe S I (fun _ => pending journal) (fun _ => I) (ask (.writeJournal journal)) w) :
    Safe S I (Opened pending) (fun _ => I) (openJournal codec commit) w := by
  apply Safe.seq hexists
  rintro exists_ w (⟨rfl, hw⟩ | ⟨rfl, hw⟩)
  · exact Safe.raise hw
  apply Safe.seq (hprepare w hw)
  intro prepared w hw
  apply Safe.seq ((hready prepared).safe_captureTargets commit.targets.entries hw)
  intro captured w hw
  apply Safe.seq ((hready prepared).safe_captureRecord .current hw)
  intro oldReceipt w hw
  apply Safe.seq ((hready prepared).readAliases w hw)
  intro known w hw
  apply Safe.seq ((hready prepared).mergeAliases commit.previousConfig known w hw)
  intro aliases w hw
  apply Safe.seq ((hready prepared).mergeAliases commit.config aliases w hw)
  intro aliases w hw
  apply Safe.seq (Q := fun _ => Opened pending _)
  · apply Safe.handle
    · exact (hwrite _ w rfl rfl hw).mono (fun _ hc => hc) (fun _ _ hq => ⟨_, rfl, hq⟩)
        (fun _ _ he => he)
    · intro failure w hw
      apply Safe.seq (hlook w hw)
      intro visible w hw
      split_ifs
      · exact Safe.raise hw
      · exact Safe.raise hw
  · intro _ w hw
    exact Safe.ret hw

theorem safe_prepare_kept {previous desired : Config} [hd : Durable S I P]
    (hcheck : Keeps S I P .checkMode) (hpreview : ∀ config, Keeps S I P (.preview config))
    (hw : P w) :
    Safe S I (fun _ => P) (fun _ => I) (prepare previous desired) w := by
  apply Safe.seq (hcheck w hw)
  intro _ w hw
  apply Safe.seq (hpreview previous w hw)
  intro old w hw
  apply Safe.seq (hpreview desired w hw)
  intro target w hw
  split_ifs
  · exact Safe.raise (hd.crash w hw)
  · exact Safe.raise (hd.crash w hw)
  apply Safe.seq (hcheck w hw)
  intro socket w hw
  exact Safe.ret hw

theorem safe_commitFiles_blocked {Q : Status → W → Prop}
    (hexists : Safe S I (fun exists_ w => exists_ = true ∧ I w) (fun _ => I)
      (ask .journalExists) w) :
    Safe S I Q (fun _ => I) (commitFiles codec commit) w := by
  apply Safe.seq (Q := fun _ => fun _ => False)
  · apply Safe.seq hexists
    rintro exists_ w ⟨rfl, hw⟩
    exact Safe.raise hw
  · exact fun _ _ hw => hw.elim

/-- An outline with what the files hold: `placed` and `kept` say that the target files are written,
before and after the outcome is known. -/
structure Course (S : System W (@Answer Config) Failure) (I : W → Prop) (codec : Codec Config)
    (pending placed : Journal Config → W → Prop)
    (resolved kept done : Journal Config → Verdict → W → Prop) :
    Prop extends Bounds S I pending resolved done where
  known : ∀ journal w, pending journal w → I w
  placing : ∀ journal w, pending journal w →
    Safe S I (fun _ => placed journal) (fun _ => I) (writeRecords journal.after) w
  publishing : ∀ journal w, placed journal w →
    Safe S I (kept journal) (fun _ => I) (publish journal.config journal.prepared) w
  weaken : ∀ journal verdict w, kept journal verdict w → resolved journal verdict w
  keeping : ∀ journal verdict w, resolved journal verdict w → verdict.outcome = .applied →
    Safe S I (fun _ => kept journal verdict) (fun _ => I) (writeRecords journal.after) w
  receipt : ∀ journal verdict w, kept journal verdict w → verdict.outcome = .applied →
    Safe S I (fun _ => done journal verdict) (fun _ => I)
    (recordReceipt codec journal.toJournalBody verdict.receipt) w
  undoing : ∀ journal verdict w, resolved journal verdict w → verdict.outcome = .unchanged →
    Safe S I (fun _ => done journal verdict) (fun _ => I) (undo journal.toJournalBody) w

theorem Outline.course [hpending : ∀ journal, Steady S I (pending journal)]
    [∀ journal verdict, Steady S I (resolved journal verdict)]
    (o : Outline S I codec pending resolved done) :
    Course S I codec pending pending resolved resolved done where
  toBounds := o.toBounds
  known journal := (hpending journal).crash
  placing journal _ hw := safe_writeRecords journal.after hw
  publishing := o.publishing
  weaken _ _ _ h := h
  keeping journal _ _ hw _ := safe_writeRecords journal.after hw
  receipt := o.receipt
  undoing journal verdict _ hw hunchanged :=
    Safe.seq (safe_writeRecords journal.before hw)
      (fun _ w hw => o.oldReceipt journal verdict w hw hunchanged)

section Programs

variable {placed : Journal Config → W → Prop} {kept : Journal Config → Verdict → W → Prop}
  (c : Course S I codec pending placed resolved kept done) {journal : Journal Config}
include c

omit [Durable S I I] in
theorem Course.safe_finish {verdict : Verdict} (hw : resolved journal verdict w) :
    Maintains S I (finish codec journal.toJournalBody verdict) w := by
  unfold finish
  split
  next happlied =>
    apply Safe.seq (c.keeping journal verdict w hw happlied)
    intro _ w hw
    apply Safe.seq (c.receipt journal verdict w hw happlied)
    intro _ w hw
    exact c.removeJournal journal verdict w hw
  next hunchanged =>
    apply Safe.seq (c.undoing journal verdict w hw hunchanged)
    intro _ w hw
    exact c.removeJournal journal verdict w hw

theorem Course.safe_recoverJournal (hw : I w) : Maintains S I (recoverJournal codec) w := by
  apply Safe.seq (c.checkMode w hw)
  intro _ w hw
  apply Safe.seq (c.readJournal w hw)
  intro journal w hw
  split_ifs
  · exact Safe.raise (c.known journal w hw)
  apply Safe.seq (c.resolving journal w hw)
  intro verdict w hw
  apply Safe.seq (c.safe_finish hw)
  intro _ w hw
  exact Safe.ret hw

theorem Course.safe_recoverLocked (hw : I w) : Maintains S I (recoverLocked codec) w := by
  apply Safe.seq (c.journalExists w hw)
  intro pending w hw
  split_ifs
  · exact Safe.ret hw
  apply Safe.seq (c.enabled w hw)
  intro enabled w hw
  split_ifs
  · exact Safe.raise hw
  apply Safe.handle (c.safe_recoverJournal hw)
  intro _ w hw
  exact Safe.raise hw

theorem Course.safe_publishFiles (hw : pending journal w) :
    Maintains S I (publishFiles codec journal.toJournalBody) w := by
  apply Safe.seq (c.placing journal w hw)
  intro _ w hw
  apply Safe.seq (c.publishing journal w hw)
  intro verdict w hw
  split
  next hunchanged =>
    apply Safe.seq (c.undoing journal verdict w (c.weaken journal verdict w hw) hunchanged)
    intro _ w hw
    apply Safe.seq (c.removeJournal journal verdict w hw)
    intro _ w hw
    exact Safe.raise hw
  next happlied =>
    apply Safe.seq (c.receipt journal verdict w hw happlied)
    intro _ w hw
    apply Safe.seq (c.removeJournal journal verdict w hw)
    intro _ w hw
    exact Safe.ret hw

theorem Course.safe_commitFailed (failure : Failure) (hw : I w) :
    Maintains S I (commitFailed codec failure) w := by
  unfold commitFailed
  split_ifs
  · apply Safe.seq (c.journalExists w hw)
    intro pending w hw
    split_ifs
    · exact Safe.raise hw
    · exact Safe.raise hw
  · apply Safe.seq (Q := fun _ => I)
    · apply Safe.handle (c.safe_recoverLocked hw)
      intro _ w hw
      exact Safe.raise hw
    · intro recovered w hw
      split
      · exact Safe.ret hw
      · exact Safe.raise hw

theorem Course.safe_commitFiles {commit : Commit Config}
    (hopen : Safe S I (Opened pending) (fun _ => I) (openJournal codec commit) w) :
    Maintains S I (commitFiles codec commit) w := by
  apply Safe.seq hopen
  rintro _ w ⟨journal, rfl, hw⟩
  exact Safe.handle (c.safe_publishFiles hw) (fun failure w hw => c.safe_commitFailed failure hw)

end Programs

end NodeManager.PublicationOutline
