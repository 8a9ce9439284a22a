import NodeManager.CrashRecovery
import NodeManager.HostedPrograms

namespace NodeManager.HostedRecovery

open Programs RuntimeCore Publication PublicationWorld PublicationOutline CrashInvariant Hosting
  HostedPrograms
open FencePrograms (unlessFailed_ok validateStatus_ok)
open CrashPrograms (Decided)
open CrashRecovery (Decided.targetProved_iff)

variable {Config Content : Type} {schema : Schema Config Content} {process : Owner}
  {host : Host Config} {codec : Codec Config} {journal : Journal Config} {h : Hosted Config Content}
  {t : Transaction Config Content} {P : Hosted Config Content → Prop} {verdict : Verdict}

theorem safe_apply (hp : Pending schema t journal h) :
    Safe (hosting schema process host) (Invariant schema host t) (fun _ => Pending schema t journal)
      (fun _ => Pending schema t journal)
      (ask (.apply journal.config journal.prepared.expected)) h := by
  refine Safe.ask_leaving (Op.apply _ _) hp ?_
  intro choice h hp
  exact @Pending.sent _ _ schema journal h t hp (.put _ _) choice hp.expected (Or.inr rfl)

theorem held_of_observed {receipt status : Status} (ho : Observed schema t journal status h)
    (htarget : status.contentHash = journal.prepared.targetHash)
    (hreceipt : receipt.contentHash = journal.prepared.targetHash)
    (hinstance : status.instanceId = receipt.instanceId) :
    Held schema t journal receipt h := by
  have hheld := ho.proved htarget
  refine ⟨ho.pending, ?_, hheld.harmless, ?_, ?_⟩
  · rw [← hinstance]
    exact hheld.reached
  · rw [← hinstance, hreceipt, ← htarget]
    exact hheld.same
  · rw [← hinstance]
    exact hheld.other

section Verdicts

variable (hinjective : Function.Injective schema.fingerprint)
include hinjective

theorem stands_of_target {receipt : Status} (hh : Held schema t journal receipt h)
    (htarget : receipt.contentHash = journal.prepared.targetHash) :
    ∀ content, schema.fingerprint content = receipt.contentHash →
    Stands schema t .applied content := by
  intro content hcontent
  obtain ⟨after, hafter, hhash⟩ := hh.pending.target
  exact hinjective (hcontent.trans (htarget.trans hhash.symm)) ▸ hafter

theorem hostedFinding (process : Owner) (host : Host Config) (t : Transaction Config Content)
    (journal : Journal Config) :
    Finding (hosting schema process host) (Invariant schema host t) (Pending schema t journal)
    journal.config
      journal.prepared (Observed schema t journal) (Held schema t journal) (Held schema t journal)
      (Resolved schema t journal) where
  checkMode _ hp := safe_ignored .checkMode rfl hp
  apply _ hp := safe_apply hp
  status _ hp := safe_status hp
  seen _ _ ho := ho.pending
  fence _ _ ho := safe_fence ho
  proved _ _ _ ho htarget hreceipt hinstance := held_of_observed ho htarget hreceipt hinstance
  applied _ _ hh htarget :=
    safe_conclude hh (stands_of_target hinjective hh htarget) ⟨fun _ => htarget, fun _ => rfl⟩
  unchanged _ _ hh hprevious hne :=
    safe_conclude hh (fun _ hcontent =>
      hinjective (hcontent.trans (hprevious.trans hh.pending.previous.symm))) ⟨nofun,
      fun heq => absurd heq hne⟩

end Verdicts

class Blind (P : Hosted Config Content → Prop) : Prop where
  rewrite : ∀ (h : Hosted Config Content) (disk : Disk Config),
    disk.journal = h.world.disk.journal → P h →
    P { h with world := { h.world with disk := disk } }

instance blind_pending : Blind (Pending schema t journal) := by
  refine ⟨fun h disk hj hp => ⟨⟨hp.sane.bounded, hp.sane.live, ?_⟩, hj.trans hp.stored, hp.config,
    hp.target, hp.previous, ⟨hp.expected.named, hp.expected.bounded, hp.expected.reached⟩,
    hp.flight, hp.since⟩⟩
  intro request hr
  have hk := hp.sane.flight request hr
  exact { hk with }

instance blind_resolved (verdict : Verdict) : Blind (Resolved schema t journal verdict) :=
  ⟨fun h disk hj hr => ⟨⟨blind_pending.rewrite h disk hj hr.held.pending, hr.held.reached,
    hr.held.harmless, hr.held.same, hr.held.other⟩, hr.means, hr.decided⟩⟩

section Files

variable [hd : Lasts schema process host t P] [hb : Blind P]

theorem safe_restore (file : File) (record : Option FileRecord) (hp : P h) :
    Leaves schema process host t (fun _ => P) (ask (.restore file record)) h := by
  have hjournal : ∀ disk : Disk Config,
      (disk.restore process file record).journal = disk.journal := by
    intro disk
    cases file <;> rfl
  refine (Safe.ask_leaving (Op.restore file record) hp (fun choice h hp => ?_)).mono
    (fun _ hi => hi) (fun _ _ hp => hp) (fun _ => hd.crash)
  change P { h with world := (h.world.write (Disk.restore process file record) choice).2 }
  rcases write_cases (Disk.restore process file record) h.world choice with heq | ⟨heq, _⟩
  · rw [heq]
    exact hb.rewrite h _ (hjournal h.world.disk) hp
  · rw [heq]
    exact hp

instance steady_of_blind : Steady (hosting schema process host) (Invariant schema host t) P where
  capture path _ hp := safe_ignored (.capture (.target path)) rfl hp
  restore path record _ hp := safe_restore (.target path) record hp

theorem safe_receipt (body : JournalBody Config) (receipt : Status) (hp : P h) :
    Leaves schema process host t (fun _ => P) (recordReceipt codec body receipt) h :=
  safe_recordReceipt (fun _ hp => safe_ignored .readAliases rfl hp)
    (fun aliases _ hp => safe_ignored (.bindOwners aliases) rfl hp)
    (fun values _ hp => safe_ignored (.versions values) rfl hp)
    (fun _ hp => safe_restore .current _ hp) hp

end Files

theorem safe_readJournal (hi : Invariant schema host t h) :
    Leaves schema process host t (Pending schema t) (ask .readJournal) h := by
  apply safe_reading .readJournal rfl hi (fun _ _ hi => hi)
  intro choice h journal hi hok
  simp only [respond] at hok
  split at hok
  next stored hstored =>
    cases unlessFailed_ok hok
    rcases hi with ⟨other, hp⟩ | ⟨hnone, _⟩ | hc
    · cases hp.stored.symm.trans hstored
      exact hp
    · cases hnone.symm.trans hstored
    · cases hc.journal.symm.trans hstored
  next => cases hok

theorem invariant_of_removed (hr : Resolved schema t journal verdict h) : Invariant schema host t
      { h with
        world := { h.world with disk := h.world.disk.setJournal none }, removals :=
        h.removal :: h.removals } := by
  obtain ⟨hh, hmeans, hdecided⟩ := hr
  have hproved : h.removal.proved = some verdict.receipt := by
    obtain ⟨⟨entry, rest, hentry, _, hverdict⟩, _⟩ := hdecided
    rw [Hosted.removal, hentry, ← hverdict]
    rfl
  cases hsound : h.removal.sound with
  | false => exact Or.inr (Or.inl ⟨rfl, h.removal, List.mem_cons_self, hsound⟩)
  | true =>
    rw [Removal.sound, hproved, Option.any_some, Bool.or_eq_true, decide_eq_true_eq,
      decide_eq_true_eq] at hsound
    have hhash : schema.fingerprint h.world.core.content = verdict.receipt.contentHash := by
      by_cases hrunning : verdict.receipt.instanceId = h.world.core.instanceId
      · exact hh.same hrunning
      rcases hsound with heq | heq
      · exact absurd heq hrunning
      · exact Option.some.inj ((hh.other hrunning).symm.trans heq)
    have hstands := hmeans _ hhash
    have hiff : TargetProved t.base h.world ↔ verdict.outcome = .applied :=
      Decided.targetProved_iff hdecided
    refine Or.inr (Or.inr ⟨⟨hh.pending.sane.bounded, hh.pending.sane.live, ?_⟩, rfl, hh.harmless,
      Or.inr ⟨?_, ?_⟩⟩)
    · intro request hr
      have hk := hh.pending.sane.flight request hr
      exact { hk with }
    · intro htarget
      rw [hiff.mp htarget] at hstands
      exact hstands
    intro htarget
    cases houtcome : verdict.outcome with
    | applied => exact absurd (hiff.mpr houtcome) htarget
    | unchanged =>
      rw [houtcome] at hstands
      exact hstands

theorem safe_removeJournal (hr : Resolved schema t journal verdict h) :
    Maintains (hosting schema process host) (Invariant schema host t) (ask .removeJournal) h := by
  refine Safe.ask_leaving Op.removeJournal hr (fun (choice : Choice) h hr => ?_)
  cases choice with
  | fail failure => exact Or.inl ⟨journal, hr.held.pending⟩
  | _ => exact invariant_of_removed hr

theorem hostedOutline (hinjective : Function.Injective schema.fingerprint) (process : Owner)
    (host : Host Config) (codec : Codec Config) (t : Transaction Config Content) :
    Outline (hosting schema process host) (Invariant schema host t) codec (Pending schema t)
    (Resolved schema t)
      (Resolved schema t) where
  journalExists _ hi := safe_ignored .journalExists rfl hi
  enabled _ hi := safe_ignored .enabled rfl hi
  checkMode _ hi := safe_ignored .checkMode rfl hi
  readJournal _ hi := safe_readJournal hi
  resolving journal _ hp := (hostedFinding hinjective process host t journal).safe_resolve hp
  publishing journal _ hp := (hostedFinding hinjective process host t journal).safe_publish hp
  receipt journal verdict _ hr _ := safe_receipt journal.toJournalBody verdict.receipt hr
  oldReceipt _ _ _ hr _ := safe_restore .current _ hr
  removeJournal _ _ _ hr := safe_removeJournal hr

end NodeManager.HostedRecovery