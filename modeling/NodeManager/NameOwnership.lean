import Mathlib.Data.Countable.Basic
import Mathlib.Logic.Equiv.List
import NodeManager.AliasLedger
import NodeManager.AuthMap
import NodeManager.PublicationOutline

namespace NodeManager.NameOwnership

open AliasLedger AuthMap Dictionary Identities Operations Programs Publication PublicationOutline
  Runs RuntimeCore Singbox

variable {codec : ReceiptCodec} {process : Owner} {journal : Journal Node}
  {verdict : Verdict} {w : World} {P Q : World → Prop} {owners : Dict String String}
  {aliases known : Aliases} {order : List String} {previous config : Node}

/-- A journal can be carried out or undone: it gives every name of its configuration to the user
that has it, and the owners in the receipt it would restore are in the history. -/
structure Fits (codec : ReceiptCodec) (owners : Dict String String)
    (journal : Journal Node) : Prop where
  names : ∀ userId name, HasName journal.config userId name →
    journal.authAliases.get? name = some userId
  receipt : ∀ record aliases, journal.oldReceipt = some record →
    codec.authAliases record.data = some aliases →
    Bound owners aliases

/-- The history has the owners of the receipt and those of all configurations that were
committed. -/
structure Kept (codec : ReceiptCodec) (w : World) : Prop where
  receipt : ∀ aliases, w.readAliases codec = .ok aliases → Bound w.owners aliases
  committed : ∀ s ∈ w.committed, ∀ userId name, HasName s userId name →
    w.owners.get? name = some userId
  pending : ∀ journal, w.disk.journal = some journal → Fits codec w.owners journal

def Pending (codec : ReceiptCodec) (journal : Journal Node) (w : World) : Prop :=
  Kept codec w ∧ w.disk.journal = some journal

def Resolved (codec : ReceiptCodec) (journal : Journal Node) (verdict : Verdict)
    (w : World) : Prop :=
  Pending codec journal w ∧ w.verdict = some verdict.outcome

def Done (codec : ReceiptCodec) (journal : Journal Node) (verdict : Verdict) (w : World) : Prop :=
  Resolved codec journal verdict w ∧
    (verdict.outcome = .applied → Bound w.owners journal.authAliases)

abbrev Leaves {α : Type} (codec : ReceiptCodec) (process : Owner) (Q : α → World → Prop)
    (p : Agent Node α) (w : World) : Prop :=
  Safe (ledger codec process) (Kept codec) Q (fun _ => Kept codec) p w

class Within (codec : ReceiptCodec) (P : World → Prop) : Prop where
  kept : ∀ w, P w → Kept codec w

instance durable_within [h : Within codec P] : Durable (ledger codec process) (Kept codec) P :=
  ⟨nofun, h.kept⟩

instance within_kept : Within codec (Kept codec) := ⟨fun _ h => h⟩

instance within_pending : Within codec (Pending codec journal) := ⟨fun _ hw => hw.1⟩

instance within_resolved : Within codec (Resolved codec journal verdict) := ⟨fun _ hw => hw.1.1⟩

instance within_done : Within codec (Done codec journal verdict) := ⟨fun _ hw => hw.1.1.1⟩

def Owning (P : World → Prop) (aliases : Aliases) (w : World) : Prop := P w ∧ Bound w.owners aliases

instance within_owning [h : Within codec P] : Within codec (Owning P aliases) :=
  ⟨fun w hw => h.kept w hw.1⟩

variable [hP : Within codec P] [hQ : Within codec Q]

def reads : Op Node → Bool
  | .restore _ _ | .writeJournal _ | .removeJournal | .bindOwners _ | .settle _ _ => false
  | _ => true

theorem respond_of_reads {op : Op Node} (hr : reads op = true) (choice : Choice) (w : World) :
    (respond codec process choice op w).2 = w := by
  cases op with
  | readJournal =>
    simp only [respond]
    split <;> rfl
  | restore | writeJournal | removeJournal | bindOwners | settle => cases hr
  | _ => rfl

theorem safe_reading (op : Op Node) {Q : Answer op → World → Prop} [∀ a, Within codec (Q a)]
    (hr : reads op = true) (hw : P w)
    (hok : ∀ choice w a, P w → (respond codec process choice op w).1 = .ok a → Q a w) :
    Leaves codec process Q (ask op) w :=
  Safe.ask_reading op (respond_of_reads hr) hw (fun _ => hP.kept) hok

theorem keeps_reading (op : Op Node) (hr : reads op = true) :
    Keeps (ledger codec process) (Kept codec) P op :=
  fun _ hw => safe_reading op hr hw (fun _ _ _ hw _ => hw)

theorem answer_ok {α : Type} {choice : Choice} {result : Except Failure α} {a : α}
    (h : choice.answer result = .ok a) :
    result = .ok a := by
  unfold Choice.answer at h
  split at h
  · cases h
  · exact h

theorem write_cases (change : World → World) (w : World) (fate : Fate) :
    (w.write change fate).2 = change w ∨
      (w.write change fate).2 = w ∧ ∃ failure, (w.write change fate).1 = .error failure := by
  cases fate with
  | fail failure => exact .inr ⟨rfl, failure, rfl⟩
  | proceed => exact .inl rfl
  | late => exact .inl rfl

theorem safe_change (op : Op Node)
    (heffect : ∀ choice w, P w → Q (respond codec process choice op w).2 ∨
    (respond codec process choice op w).2 = w ∧
    ∃ failure, (respond codec process choice op w).1 = .error failure) (hw : P w) :
    Leaves codec process (fun _ => Q) (ask op) w :=
  Safe.ask_writing op hw (fun _ => hP.kept) (fun _ => hQ.kept) heffect

theorem Kept.files (h : Kept codec w) (files : String → Option FileState) :
    Kept codec { w with disk := { w.disk with files := files } } := { h with }

theorem Kept.settle (h : Kept codec w) (outcome : Outcome) :
    Kept codec { w with verdict := some outcome } :=
  { h with }

theorem bound_mono {owners' : Dict String String} (h : Bound owners aliases)
    (hmono : ∀ name userId, owners.get? name = some userId → owners'.get? name = some userId) :
    Bound owners' aliases :=
  fun name userId hget => hmono name userId (h name userId hget)

theorem Kept.bind (h : Kept codec w)
    (hmono : ∀ name userId, w.owners.get? name = some userId → owners.get? name = some userId) :
    Kept codec { w with owners := owners } :=
  ⟨fun aliases hread => bound_mono (h.receipt aliases hread) hmono,
    fun s hs userId name hname => hmono name userId (h.committed s hs userId name hname),
    fun journal hjournal => ⟨(h.pending journal hjournal).names, fun record aliases hold hread =>
      bound_mono ((h.pending journal hjournal).receipt record aliases hold hread) hmono⟩⟩

theorem Kept.restore (h : Kept codec w) {record : Option FileRecord}
    (hrecord : ∀ file aliases, record = some file → codec.authAliases file.data = some aliases →
      Bound w.owners aliases) :
    Kept codec { w with disk := w.disk.restore process .current record } := by
  refine ⟨fun aliases hread => ?_, h.committed, h.pending⟩
  cases record with
  | none =>
    cases hread
    intro name userId hget
    cases hget
  | some file =>
    have hdecoded : codec.authAliases file.data = some aliases := by
      simp only [World.readAliases, PublicationWorld.Disk.restore, Option.map_some,
        PublicationWorld.FileRecord.written] at hread
      split at hread
      next hdata =>
        cases hread
        exact hdata
      · cases hread
    exact hrecord file aliases rfl hdecoded

theorem safe_restore (file : File) (record : Option FileRecord)
    (hrestore : ∀ w, P w → Q { w with disk := w.disk.restore process file record }) (hw : P w) :
    Leaves codec process (fun _ => Q) (ask (.restore file record)) w := by
  refine safe_change (.restore file record) (fun choice w hw => ?_) hw
  refine (write_cases _ w choice.fate).imp_left (fun heq => ?_)
  change Q (w.write _ choice.fate).2
  rw [heq]
  exact hrestore w hw

theorem steady (hfiles : ∀ w files, P w → P { w with disk := { w.disk with files := files } }) :
    Steady (ledger codec process) (Kept codec) P where
  capture path := keeps_reading (.capture (.target path)) rfl
  restore path record _ hw := safe_restore (.target path) record (fun w hw => hfiles w _ hw) hw

instance steady_pending : Steady (ledger codec process) (Kept codec) (Pending codec journal) :=
  steady (fun _ files hw => ⟨hw.1.files files, hw.2⟩)

instance steady_resolved : Steady (ledger codec process) (Kept codec)
    (Resolved codec journal verdict) :=
  steady (fun _ files hw => ⟨⟨hw.1.1.files files, hw.1.2⟩, hw.2⟩)

theorem safe_bindOwners (aliases : Aliases)
    (hbind : ∀ w bound, P w → bindOwners w.owners aliases = .ok bound →
      Q { w with owners := bound }) (hw : P w) :
    Leaves codec process (fun _ => Q) (ask (.bindOwners aliases)) w := by
  refine safe_change (.bindOwners aliases) (fun choice w hw => ?_) hw
  simp only [respond]
  cases hbound : bindOwners w.owners aliases with
  | error failure => exact .inr ⟨rfl, failure, rfl⟩
  | ok bound =>
    refine (write_cases _ w choice.fate).imp_left (fun heq => ?_)
    rw [heq]
    exact hbind w bound hw hbound

theorem safe_conclude (prepared : Prepared) (hw : Pending codec journal w) :
    Leaves codec process (Resolved codec journal) (conclude prepared verdict) w := by
  apply Safe.seq (Q := fun _ => Resolved codec journal verdict)
  · refine safe_change (.settle prepared verdict) (fun choice w hw => .inl ?_) hw
    exact ⟨⟨hw.1.settle _, hw.2⟩, rfl⟩
  · intro _ w hw
    exact Safe.ret hw

theorem safe_talk (op : Op Node) (htalk : talks op = true) (w : World)
    (hw : Pending codec journal w) :
    Safe (ledger codec process) (Kept codec) (fun _ => Pending codec journal)
    (fun _ => Pending codec journal)
      (ask op) w := by
  have hreads : reads op = true := by
    cases op with
    | checkMode | status | apply | fence => rfl
    | _ => cases htalk
  exact Safe.ask_reading op (@respond_of_reads codec process op hreads) hw (fun _ _ hw => hw)
    (fun _ _ _ hw _ => hw)

theorem Resolved.bind (hw : Resolved codec journal verdict w)
    (hmono : ∀ name userId, w.owners.get? name = some userId → owners.get? name = some userId) :
    Resolved codec journal verdict { w with owners := owners } :=
    ⟨⟨hw.1.1.bind hmono, hw.1.2⟩, hw.2⟩

theorem safe_recordReceipt (receipt : Status) (hw : Resolved codec journal verdict w) :
    Leaves codec process (fun _ => Done codec journal verdict)
      (recordReceipt codec.toCodec journal.toJournalBody receipt) w := by
  apply Safe.seq (keeps_reading .readAliases rfl w hw)
  intro previous w hw
  apply Safe.seq (Q := fun _ => Resolved codec journal verdict)
  · exact safe_bindOwners previous (fun w bound hw hbound => hw.bind (bindOwners_ok hbound).1) hw
  intro _ w hw
  apply Safe.seq (Q := fun _ => Owning (Resolved codec journal verdict) journal.authAliases)
  · exact safe_bindOwners journal.authAliases
      (fun w bound hw hbound => ⟨hw.bind (bindOwners_ok hbound).1, (bindOwners_ok hbound).2⟩) hw
  intro _ w hw
  apply Safe.seq (keeps_reading (.versions journal.archivedVersions) rfl w hw)
  intro _ w hw
  refine safe_restore .current _ (fun w hw => ?_) hw
  refine ⟨⟨⟨hw.1.1.1.restore (fun file aliases hfile hread => ?_), hw.1.1.2⟩, hw.1.2⟩,
    fun _ => hw.2⟩
  cases hfile
  rw [codec.authAliases_receipt] at hread
  cases hread
  exact hw.2

theorem safe_oldReceipt (hunchanged : verdict.outcome = .unchanged)
    (hw : Resolved codec journal verdict w) :
    Leaves codec process (fun _ => Done codec journal verdict)
    (ask (.restore .current journal.oldReceipt)) w := by
  refine safe_restore .current _ (fun w hw => ?_) hw
  have hfits := hw.1.1.pending journal hw.1.2
  refine ⟨⟨⟨hw.1.1.restore hfits.receipt, hw.1.2⟩, hw.2⟩, fun happlied => ?_⟩
  cases hunchanged.symm.trans happlied

theorem Done.complete (hw : Done codec journal verdict w) : Kept codec w.complete := by
  obtain ⟨⟨⟨hkept, hjournal⟩, hverdict⟩, hbound⟩ := hw
  refine ⟨hkept.receipt, fun s hs userId name hname => ?_, nofun⟩
  simp only [World.complete, hjournal, hverdict] at hs
  cases hout : verdict.outcome with
  | unchanged =>
    rw [hout] at hs
    exact hkept.committed s hs userId name hname
  | applied =>
    rw [hout] at hs
    obtain rfl | hs := List.mem_cons.mp hs
    · exact hbound hout name userId ((hkept.pending journal hjournal).names userId name hname)
    · exact hkept.committed s hs userId name hname

theorem safe_removeJournal (hw : Done codec journal verdict w) :
    Maintains (ledger codec process) (Kept codec) (ask .removeJournal) w := by
  refine safe_change .removeJournal (fun choice w hw => ?_) hw
  simp only [respond]
  split
  next failure _ => exact .inr ⟨rfl, failure, rfl⟩
  next => exact .inl hw.complete

theorem safe_readJournal (hw : Kept codec w) :
    Leaves codec process (Pending codec) (ask .readJournal) w := by
  refine safe_reading .readJournal rfl hw (fun choice w journal hw hok => ?_)
  simp only [respond] at hok
  split at hok
  next stored hstored =>
    cases answer_ok hok
    exact ⟨hw, hstored⟩
  · cases hok

theorem ledgerFinding (codec : ReceiptCodec) (process : Owner) (journal : Journal Node) :
    Finding (ledger codec process) (Kept codec) (Pending codec journal) journal.config
    journal.prepared
      (fun _ => Pending codec journal) (fun _ => Pending codec journal)
      (fun _ => Pending codec journal) (Resolved codec journal) :=
  finding_of_talks safe_talk (fun _ _ hw _ => safe_conclude journal.prepared hw)

theorem ledgerOutline (codec : ReceiptCodec) (process : Owner) :
    Outline (ledger codec process) (Kept codec) codec.toCodec (Pending codec) (Resolved codec)
    (Done codec) where
  journalExists := keeps_reading .journalExists rfl
  enabled := keeps_reading .enabled rfl
  checkMode := keeps_reading .checkMode rfl
  readJournal := fun _ hw => safe_readJournal hw
  resolving := fun journal _ hw => (ledgerFinding codec process journal).safe_resolve hw
  publishing := fun journal _ hw => (ledgerFinding codec process journal).safe_publish hw
  receipt := fun _ verdict _ hw _ => safe_recordReceipt verdict.receipt hw
  oldReceipt := fun _ _ _ hw hunchanged => safe_oldReceipt hunchanged hw
  removeJournal := fun _ _ _ hw => safe_removeJournal hw

/-- The merge refuses every name that two users of the configuration share: a user of the previous
configuration has it, or it belongs to someone who does not have it now. -/
def Caught (owners : Dict String String) (previous config : Node) : Prop :=
  ∀ u v name, HasName config u name → HasName config v name → u ≠ v →
    (∃ holder, HasName previous holder name) ∨ ∃ owner, owners.get? name = some owner ∧
    ¬HasName config owner name

theorem visited_perm (order ids : List String) : (visited order ids).Perm ids := by
  unfold visited
  split
  · assumption
  · exact List.Perm.refl ids

theorem claimed_of_merge {s : Node} {previous : Aliases}
    (h : mergeAliases owners s previous (visited order (discoverUserIds s.inbounds s.users)) =
      .ok aliases) :
    (∀ u name, HasName s u name → ∃ v, aliases.get? name = some v ∧ HasName s v name) ∧
      (∀ u name, HasName s u name → ∀ owner ∈ previous.get? name, owner = u) ∧
      ∀ u name, aliases.get? name = some u → ∀ owner ∈ owners.get? name, owner = u := by
  obtain ⟨hclaimed, hstored⟩ := mergeAliases_ok h
  have hmem (u : String) : u ∈ visited order (discoverUserIds s.inbounds s.users) ↔
      u ∈ discoverUserIds s.inbounds s.users := (visited_perm order _).mem_iff
  refine ⟨fun u name hname => ?_, fun u name hname => ?_, fun u name hget => hstored name u hget⟩
  · obtain ⟨v, hget⟩ := Option.isSome_iff_exists.mp
      (hclaimed.listed u ((hmem u).mpr hname.1) name hname.2)
    obtain ⟨hv, hnames⟩ := hclaimed.only name v hget
    exact ⟨v, hget, (hmem v).mp hv, hnames⟩
  · exact hclaimed.free u ((hmem u).mpr hname.1) name hname.2

theorem merged_names {aliases' : Aliases} {order' : List String}
    (hcaught : Caught owners previous config)
    (h : mergeAliases owners previous known
    (visited order (discoverUserIds previous.inbounds previous.users)) =
    .ok aliases)
    (h' : mergeAliases owners config aliases
      (visited order' (discoverUserIds config.inbounds config.users)) =
    .ok aliases') (u name : String) (hname : HasName config u name) :
    aliases'.get? name = some u := by
  obtain ⟨hlisted, hfree, hstored⟩ := claimed_of_merge h'
  obtain ⟨v, hget, hv⟩ := hlisted u name hname
  by_cases hne : u = v
  · rw [hne, hget]
  obtain ⟨holder, hholder⟩ | ⟨owner, howner, hnot⟩ := hcaught u v name hname hv hne
  · obtain ⟨before, hbefore, -⟩ := (claimed_of_merge h).1 holder name hholder
    exact absurd ((hfree u name hname before hbefore).symm.trans
      (hfree v name hv before hbefore)) hne
  · rw [hstored v name hget owner howner] at hnot
    exact absurd hv hnot

def Restorable (codec : ReceiptCodec) (oldReceipt : Option FileRecord) (w : World) : Prop :=
  ∀ record aliases, oldReceipt = some record → codec.authAliases record.data = some aliases →
    Bound w.owners aliases

theorem Kept.restorable (h : Kept codec w) :
    Restorable codec (w.disk.current.map FileState.record) w := by
  intro record aliases hrecord hread
  obtain ⟨file, hfile, rfl⟩ := Option.map_eq_some_iff.mp hrecord
  refine h.receipt aliases ?_
  have hdata : codec.authAliases file.data = some aliases := hread
  simp only [World.readAliases, hfile, hdata]

variable {commit : Commit Node} {oldReceipt : Option FileRecord} {name userId : String}

def Ready (codec : ReceiptCodec) (commit : Commit Node) (w : World) : Prop :=
  Kept codec w ∧ Caught w.owners commit.previousConfig commit.config

instance within_ready : Within codec (Ready codec commit) := ⟨fun _ hw => hw.1⟩

theorem safe_prepare (previous desired : Node) (hw : P w) :
    Leaves codec process (fun _ => P) (prepare previous desired) w :=
  safe_prepare_kept (keeps_reading .checkMode rfl)
    (fun config => keeps_reading (.preview config) rfl) hw

theorem safe_preparedFor (hw : Ready codec commit w) :
    Leaves codec process (fun _ => Ready codec commit) (preparedFor commit) w := by
  unfold preparedFor
  split
  · exact safe_prepare _ _ hw
  · exact Safe.ret hw

instance reading_ready : Reading (ledger codec process) (Kept codec) (Ready codec commit) where
  capture file := keeps_reading (.capture file) rfl
  readAliases := keeps_reading .readAliases rfl
  mergeAliases config aliases := keeps_reading (.mergeAliases config aliases) rfl

def Captured (codec : ReceiptCodec) (commit : Commit Node) (oldReceipt : Option FileRecord)
    (w : World) : Prop :=
  Ready codec commit w ∧ Restorable codec oldReceipt w

def Merging (codec : ReceiptCodec) (commit : Commit Node) (oldReceipt : Option FileRecord)
    (known aliases : Aliases) (w : World) : Prop :=
  Captured codec commit oldReceipt w ∧ ∃ order, mergeAliases w.owners commit.previousConfig known
    (visited order (discoverUserIds commit.previousConfig.inbounds
      commit.previousConfig.users)) = .ok aliases

def Merged (codec : ReceiptCodec) (commit : Commit Node) (oldReceipt : Option FileRecord)
    (aliases : Aliases) (w : World) : Prop :=
  Captured codec commit oldReceipt w ∧ ∀ u name, HasName commit.config u name →
    aliases.get? name = some u

instance within_captured : Within codec (Captured codec commit oldReceipt) := ⟨fun _ hw => hw.1.1⟩

instance within_merging : Within codec (Merging codec commit oldReceipt known aliases) :=
  ⟨fun _ hw => hw.1.1.1⟩

instance within_merged : Within codec (Merged codec commit oldReceipt aliases) :=
  ⟨fun _ hw => hw.1.1.1⟩

theorem safe_captureReceipt (hw : Ready codec commit w) :
    Leaves codec process (Captured codec commit) (captureRecord .current) w := by
  apply Safe.seq (Q := fun observed w => Captured codec commit (observed.map FileState.record) w)
  · refine safe_reading (.capture .current) rfl hw (fun choice w observed hw hok => ?_)
    cases answer_ok hok
    exact ⟨hw, hw.1.restorable⟩
  · intro observed w hw
    exact Safe.ret hw

theorem safe_writeJournal (hconfig : journal.config = commit.config)
    (hold : journal.oldReceipt = oldReceipt) (haliases : journal.authAliases = aliases)
    (hw : Merged codec commit oldReceipt aliases w) :
    Leaves codec process (fun _ => Pending codec journal) (ask (.writeJournal journal)) w := by
  refine safe_change (.writeJournal journal) (fun choice w hw => ?_) hw
  refine (write_cases _ w choice.fate).imp_left (fun heq => ?_)
  change Pending codec journal (w.write _ choice.fate).2
  rw [heq]
  obtain ⟨⟨⟨hkept, -⟩, hrestorable⟩, hnames⟩ := hw
  refine ⟨⟨hkept.receipt, hkept.committed, ?_⟩, rfl⟩
  rintro other ⟨⟩
  exact ⟨by rwa [hconfig, haliases], by rwa [hold]⟩

theorem safe_openJournal (hw : Ready codec commit w) :
    Leaves codec process (Opened (Pending codec)) (openJournal codec.toCodec commit) w := by
  apply Safe.seq (keeps_reading .journalExists rfl w hw)
  intro pending w hw
  split
  · exact Safe.raise hw.1
  apply Safe.seq (safe_preparedFor hw)
  intro prepared w hw
  apply Safe.seq (reading_ready.safe_captureTargets commit.targets.entries hw)
  intro captured w hw
  apply Safe.seq (safe_captureReceipt hw)
  intro oldReceipt w hw
  apply Safe.seq (keeps_reading .readAliases rfl w hw)
  intro known w hw
  apply Safe.seq (Q := Merging codec commit oldReceipt known)
  · exact safe_reading (.mergeAliases commit.previousConfig known) rfl hw
      (fun choice w aliases hw hok => ⟨hw, choice.order, answer_ok hok⟩)
  intro aliases w hw
  apply Safe.seq (Q := Merged codec commit oldReceipt)
  · refine safe_reading (.mergeAliases commit.config aliases) rfl hw
      (fun choice w aliases' hw hok => ?_)
    obtain ⟨hcaptured, order, hmerged⟩ := hw
    exact ⟨hcaptured, merged_names hcaptured.1.2 hmerged (answer_ok hok)⟩
  intro aliases w hw
  apply Safe.seq (Q := fun _ => Opened (Pending codec) _)
  · apply Safe.handle
    · exact (safe_writeJournal rfl rfl rfl hw).mono (fun _ hc => hc) (fun _ _ hq => ⟨_, rfl, hq⟩)
        (fun _ _ he => he)
    · intro failure w hw
      apply Safe.seq (keeps_reading .journalExists rfl w hw)
      intro visible w hw
      split
      · exact Safe.raise hw
      · exact Safe.raise hw
  · intro _ w hw
    exact Safe.ret hw

theorem safe_commitFiles (hw : Ready codec commit w) :
    Maintains (ledger codec process) (Kept codec) (commitFiles codec.toCodec commit) w :=
  (ledgerOutline codec process).course.safe_commitFiles (safe_openJournal hw)

theorem safe_adoptReceipt (config : Node) (receipt : Status) (hw : Kept codec w) :
    Maintains (ledger codec process) (Kept codec) (adoptReceipt codec config receipt) w := by
  have hbind (aliases : Aliases) (w : World) (hw : Kept codec w) :
      Leaves codec process (fun _ => Owning (Kept codec) aliases) (ask (.bindOwners aliases)) w :=
    safe_bindOwners aliases
      (fun w bound hw hbound => ⟨hw.bind (bindOwners_ok hbound).1, (bindOwners_ok hbound).2⟩) hw
  apply Safe.seq (keeps_reading .readAliases rfl w hw)
  intro previous w hw
  apply Safe.seq (hbind previous w hw)
  intro _ w hw
  apply Safe.seq (keeps_reading (.mergeAliases config previous) rfl w hw.1)
  intro aliases w hw
  apply Safe.seq (hbind aliases w hw)
  intro _ w hw
  apply Safe.seq (keeps_reading (.versions Dict.empty) rfl w hw)
  intro _ w hw
  refine safe_restore .current _ (fun w hw => ?_) hw
  refine hw.1.restore (fun file aliases' hfile hread => ?_)
  cases hfile
  rw [codec.authAliases_receipt] at hread
  cases hread
  exact hw.2

/-- A publication shares no name that its merge would not refuse. -/
def Allowed (w : World) (s : Task × List (Action (ledger codec process))) : Prop :=
  match s.1 with
  | .publication (.commit commit) | .publication (.commitPrepared commit) | .applyDisk commit =>
    Caught w.owners commit.previousConfig commit.config
  | _ => True

theorem safe_call (call : Call Node)
    (hcaught : ∀ commit, call = .commit commit ∨ call = .commitPrepared commit →
      Caught w.owners commit.previousConfig commit.config) (hw : Kept codec w) :
    Maintains (ledger codec process) (Kept codec) (call.program codec.toCodec) w := by
  cases call with
  | commit commit =>
    exact Safe.seq_pure (@safe_commitFiles _ _ _ { commit with
      prepared := none } ⟨hw, hcaught commit (.inl rfl)⟩)
  | commitPrepared commit =>
    have hready : Ready codec commit w := ⟨hw, hcaught commit (.inr rfl)⟩
    apply Safe.seq (safe_prepare _ _ hready)
    intro prepared w hw
    exact Safe.seq_pure (@safe_commitFiles _ _ _ { commit with prepared := some prepared } hw)
  | recover =>
    exact Safe.seq_pure ((ledgerOutline codec process).course.safe_recoverLocked hw)

theorem safe_initializeLocked (config : Node) (authenticated : Bool) (hw : Kept codec w) :
    Maintains (ledger codec process) (Kept codec)
    (initializeLocked codec config authenticated) w := by
  apply Safe.seq ((ledgerOutline codec process).course.safe_recoverLocked hw)
  intro _ w hw
  apply Safe.seq (keeps_reading .enabled rfl w hw)
  intro enabled w hw
  split
  · exact Safe.ret hw
  split
  · exact Safe.raise hw
  apply Safe.seq (Q := fun _ => Kept codec)
  · apply Safe.seq (keeps_reading .checkMode rfl w hw)
    intro _ w hw
    apply Safe.seq (keeps_reading (.preview config) rfl w hw)
    intro preview w hw
    split
    · exact Safe.raise hw
    · exact Safe.ret hw
  · intro receipt w hw
    exact safe_adoptReceipt config receipt hw

theorem safe_applyDisk {commit : Commit Node} (hw : Ready codec commit w) :
    Maintains (ledger codec process) (Kept codec) (applyDisk codec commit) w := by
  apply Safe.seq (keeps_reading .journalExists rfl w hw)
  intro pending w hw
  split
  · exact Safe.raise hw.1
  apply Safe.seq (keeps_reading (.preview commit.config) rfl w hw)
  intro observed w hw
  split
  · exact Safe.seq_pure (safe_adoptReceipt commit.config observed.runtime hw.1)
  · exact @safe_commitFiles _ _ _ { commit with prepared := none } hw

theorem safe_task {s : Task × List (Action (ledger codec process))} (hallowed : Allowed w s)
    (hw : Kept codec w) :
    Maintains (ledger codec process) (Kept codec) (s.1.program codec) w := by
  obtain ⟨task, schedule⟩ := s
  cases task with
  | publication call =>
    refine safe_call call ?_ hw
    rintro commit (rfl | rfl)
    · exact hallowed
    · exact hallowed
  | startup config authenticated => exact safe_initializeLocked config authenticated hw
  | applyDisk commit =>
    exact Safe.seq_pure (safe_applyDisk ⟨hw, hallowed⟩)

def work (codec : ReceiptCodec) (process : Owner) (s : Task × List (Action (ledger codec process)))
    (w : World) : World :=
  session (ledger codec process) (s.1.program codec, s.2) w

def Recorded (codec : ReceiptCodec) (w : World) (name userId : String) : Prop :=
  w.owners.get? name = some userId ∨ ∃ aliases, w.readAliases codec = .ok aliases ∧
    aliases.get? name = some userId

theorem Kept.owner (h : Kept codec w) (hrecorded : Recorded codec w name userId) :
    w.owners.get? name = some userId := by
  obtain howner | ⟨aliases, hread, hget⟩ := hrecorded
  · exact howner
  · exact h.receipt aliases hread name userId hget

theorem respond_owner (choice : Choice) (op : Op Node) (h : w.owners.get? name = some userId) :
    (respond codec process choice op w).2.owners.get? name = some userId := by
  cases op with
  | bindOwners values =>
    simp only [respond]
    split
    · exact h
    next bound hbound =>
      obtain heq | ⟨heq, -⟩ := write_cases (fun w => { w with owners := bound }) w choice.fate
      · rw [heq]
        exact (bindOwners_ok hbound).1 name userId h
      · rw [heq]
        exact h
  | restore file record =>
    obtain heq | ⟨heq, -⟩ := write_cases
      (fun w => { w with disk := w.disk.restore process file record }) w choice.fate
    · exact (congrArg (fun w => w.owners.get? name) heq).trans h
    · exact (congrArg (fun w => w.owners.get? name) heq).trans h
  | writeJournal journal =>
    obtain heq | ⟨heq, -⟩ := write_cases
      (fun w => { w with disk := w.disk.setJournal (some journal), verdict := none }) w choice.fate
    · exact (congrArg (fun w => w.owners.get? name) heq).trans h
    · exact (congrArg (fun w => w.owners.get? name) heq).trans h
  | removeJournal =>
    simp only [respond]
    split <;> exact h
  | settle => exact h
  | _ => rwa [respond_of_reads rfl]

theorem work_owner (s : Task × List (Action (ledger codec process)))
    (h : w.owners.get? name = some userId) :
    (work codec process s w).owners.get? name = some userId :=
  (Safe.of_closed (S := ledger codec process)
    (P := fun w : World => w.owners.get? name = some userId)
    (fun choice op _ h => respond_owner choice op h) (fun event => event.elim)
    (s.1.program codec) h s.2).1

/-- A name in a committed configuration is never that of another user in one, and its recorded owner
stays. -/
theorem names_keep_owner (codec : ReceiptCodec) (process : Owner)
    (tasks : List (Task × List (Action (ledger codec process)))) (w₀ : World)
    (hjournal : w₀.disk.journal = none) (hcommitted : w₀.committed = [])
    (hreceipt : ∀ aliases, w₀.readAliases codec = .ok aliases → Bound w₀.owners aliases)
    (hp : Permitted (work codec process) Allowed tasks w₀) :
    (∀ s ∈ (run (work codec process) tasks w₀).committed,
      ∀ t ∈ (run (work codec process) tasks w₀).committed, ∀ u v name, HasName s u name →
      HasName t v name → u = v) ∧
    (∀ s ∈ (run (work codec process) tasks w₀).committed, ∀ u name, HasName s u name →
      Recorded codec (run (work codec process) tasks w₀) name u) ∧
    ∀ first rest, tasks = first ++ rest →
    ∀ name u v, Recorded codec (run (work codec process) first w₀) name u →
      Recorded codec (run (work codec process) tasks w₀) name v → u = v := by
  have hstart : Kept codec w₀ := ⟨hreceipt, by simp [hcommitted], by simp [hjournal]⟩
  have hkept {tasks : List (Task × List (Action (ledger codec process)))}
      (hp : Permitted (work codec process) Allowed tasks w₀) :
      Kept codec (run (work codec process) tasks w₀) :=
    @run_invariant _ _ (work codec process) Allowed (Kept codec)
      (fun w s hw hallowed => (safe_task hallowed hw s.2).1) _ _ hstart hp
  refine ⟨fun s hs t ht u v name hu hv => ?_, fun s hs u name hu => ?_, ?_⟩
  · have howner := (hkept hp).committed s hs u name hu
    rw [(hkept hp).committed t ht v name hv] at howner
    exact (Option.some.inj howner).symm
  · exact .inl ((hkept hp).committed s hs u name hu)
  · rintro first rest rfl name u v hu hv
    have hbefore := (hkept (permitted_append hp).1).owner hu
    have hafter := (hkept hp).owner hv
    rw [run_append] at hafter
    have hstays : (run (work codec process) rest (run (work codec process) first w₀)).owners.get?
      name = some u :=
      @run_invariant _ _ (work codec process) Allowed (fun w => w.owners.get? name = some u)
        (fun _ s h _ => work_owner s h) _ _ hbefore (permitted_append hp).2
    rw [hstays] at hafter
    exact Option.some.inj hafter

theorem exists_encoding : ∃ encode : Aliases → String, Function.Injective encode := by
  have hchar : Countable Char := Function.Injective.countable (f := Char.toNat)
    (fun _ _ h => Char.toNat_inj.mp h)
  have hstring : Countable String :=
    Function.Injective.countable (f := String.toList) (fun _ _ h => String.toList_inj.mp h)
  have hentries : Function.Injective (Dict.entries : Aliases → List (String × String)) := by
    rintro ⟨entries, _⟩ ⟨_, _⟩ rfl
    rfl
  have := hentries.countable
  obtain ⟨number, hnumber⟩ := Countable.exists_injective_nat Aliases
  exact ⟨fun aliases => Infinite.natEmbedding String (number aliases),
    (Infinite.natEmbedding String).injective.comp hnumber⟩

open Classical in
noncomputable def plainReceipts : ReceiptCodec where
  digest _ := ""
  receipt _ _ aliases := exists_encoding.choose aliases
  authAliases text := if h : ∃ aliases, exists_encoding.choose aliases = text then
    some h.choose else none
  authAliases_receipt _ _ aliases := by
    have h : ∃ aliases', exists_encoding.choose aliases' = exists_encoding.choose aliases :=
      ⟨aliases, rfl⟩
    rw [dif_pos h, exists_encoding.choose_spec h.choose_spec]

def freshLedger : World where
  disk := ⟨fun _ => none, none, none⟩
  owners := Dict.empty

def publishing (ops : List Operation) (s : Node) : Task :=
  .publication (.commit
    { config := run (mutateConfig default) ops s
      previousConfig := s
      targets := ⟨[("config.json", ""), ("registry.json", "")], by decide⟩
      archivedVersions := Dict.empty })

def smoothly : List (Action (ledger plainReceipts (0, 0))) := List.replicate 25 (.call { })

def onlyV : Node := run (mutateConfig default) [createVless "v"] emptyNode

theorem caught_of_known
    (h : ∀ u ∈ discoverUserIds config.inbounds config.users,
      ∀ v ∈ discoverUserIds config.inbounds config.users,
    ∀ name ∈ userAuthNames config.users u, name ∈ userAuthNames config.users v → u ≠ v →
    ∃ holder ∈ discoverUserIds previous.inbounds previous.users,
    name ∈ userAuthNames previous.users holder) :
    Caught owners previous config :=
    fun u v name hu hv hne => .inl (h u hu.1 v hv.1 name hu.2 hv.2 hne)

theorem one_after_the_other_permitted : Permitted (work plainReceipts (0, 0)) Allowed
    [(publishing [createVless "v"] emptyNode, smoothly),
      (publishing [createSocks "w" "v"] onlyV, smoothly)] freshLedger :=
  ⟨caught_of_known (by decide), caught_of_known (by decide), trivial⟩

theorem one_after_the_other : ∃ w, run (work plainReceipts (0, 0))
      [(publishing [createVless "v"] emptyNode, smoothly),
        (publishing [createSocks "w" "v"] onlyV, smoothly)] freshLedger = w ∧
    (∀ s ∈ w.committed, ∀ t ∈ w.committed, ∀ u v name, HasName s u name →
      HasName t v name → u = v) ∧
    ∀ s ∈ w.committed, ∀ u name, HasName s u name → Recorded plainReceipts w name u := by
  obtain ⟨happart, hrecorded, -⟩ := names_keep_owner plainReceipts (0, 0) _ freshLedger rfl rfl (by
    intro aliases hread
    cases hread
    intro name userId hget
    cases hget) one_after_the_other_permitted
  exact ⟨_, rfl, happart, hrecorded⟩

/-- Both are created in one batch: the publication is committed, and v is a name of both. -/
theorem batch_shares_name :
    (run (work plainReceipts (0, 0)) [(publishing [createVless "v", createSocks "w" "v"]
        emptyNode, smoothly)] freshLedger).committed =
      [run (mutateConfig default) [createVless "v", createSocks "w" "v"] emptyNode] ∧
    HasName (run (mutateConfig default) [createVless "v", createSocks "w" "v"]
      emptyNode) "v" "v" ∧
    HasName (run (mutateConfig default) [createVless "v", createSocks "w" "v"]
      emptyNode) "w" "v" :=
  ⟨by decide +kernel, by decide, by decide⟩

end NodeManager.NameOwnership
