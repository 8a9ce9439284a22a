import NodeManager.CrashInvariant
import NodeManager.PublicationOutline

namespace NodeManager.CrashPrograms

open Programs RuntimeCore Publication PublicationWorld PublicationOutline FencePrograms
  CrashInvariant

structure Attempt (Config Content : Type) where
  process : Owner
  codec : Codec Config
  commit : Commit Config
  disk : Disk Config
  base : List (Settlement Content)

variable {Config Content : Type} {schema : Schema Config Content} {process : Owner}
  {a : Attempt Config Content} {journal : Journal Config} {w : World Config Content}
  {K : Disk Config → List (Settlement Content) → Prop} {C P : World Config Content → Prop}

abbrev Attempt.Left (a : Attempt Config Content) : World Config Content → Prop :=
  Crashed a.process a.codec a.commit a.disk a.base

def Attempt.after (a : Attempt Config Content) : String → Option FileState :=
  afterFiles a.process a.commit a.disk.files

def Attempt.Stage (a : Attempt Config Content) (journal : Journal Config)
    (K : Disk Config → List (Settlement Content) → Prop) (w : World Config Content) : Prop :=
  (Interrupted a.process a.commit a.disk journal w.disk ∧ ∃ since, w.settled = since ++ a.base) ∧
    K w.disk w.settled

instance resting_stage : Resting a.Left (a.Stage journal K) := by
  refine ⟨?_, fun _ hw => Or.inl ⟨journal, hw.1⟩⟩
  intro w w' hdisk hsettled hw
  rw [Attempt.Stage, hdisk, hsettled]
  exact hw

def isQuiet : Op Config → Bool
  | .restore _ _ | .writeJournal _ | .removeJournal | .settle _ _ => false
  | _ => true

theorem send_frame (request : Request Config) (w : World Config Content) (choice : Choice) :
    (w.send schema request choice).2.disk = w.disk ∧
    (w.send schema request choice).2.settled = w.settled := by
  cases hr : (w.send schema request choice).1 with
  | ok status =>
    obtain ⟨_, _, _, heq, _⟩ := send_ok hr
    rw [heq]
    exact ⟨rfl, rfl⟩
  | error failure =>
    rcases send_error hr with heq | heq | ⟨_, _, _, heq⟩
    · rw [heq]
      exact ⟨rfl, rfl⟩
    · rw [heq]
      exact ⟨rfl, rfl⟩
    · rw [heq]
      exact ⟨rfl, rfl⟩

theorem respond_frame {op : Op Config} (hq : isQuiet op = true) (choice : Choice)
    (w : World Config Content) :
    (respond schema process choice op w).2.disk = w.disk ∧
      (respond schema process choice op w).2.settled = w.settled := by
  cases hr : reads op with
  | true =>
    rw [respond_of_reads hr]
    exact ⟨rfl, rfl⟩
  | false =>
    cases op with
    | apply config expected => exact send_frame (.put config expected) w choice
    | fence expected => exact send_frame (.fence expected) w choice
    | restore | writeJournal | removeJournal | settle => cases hq
    | _ => cases hr

theorem isQuiet_of_talks {op : Op Config} (ht : talks op = true) : isQuiet op = true := by
  cases op <;> first | rfl | cases ht

theorem safe_quiet [hr : Resting C P] (op : Op Config) (hq : isQuiet op = true) (hw : P w) :
    Safe (volatile schema process) C (fun _ => P) (fun _ => P) (ask op) w := by
  refine Safe.ask_leaving op hw (fun choice w hw => ?_)
  obtain ⟨hdisk, hsettled⟩ := @respond_frame _ _ schema process op hq choice w
  exact hr.congr w _ hdisk hsettled hw

theorem keeps_quiet [hr : Resting C P] (op : Op Config) (hq : isQuiet op = true) :
    Keeps (volatile schema process) C P op :=
  fun _ hw => (safe_quiet op hq hw).mono (fun _ hw => hw) (fun _ _ hw => hw) (fun _ => hr.crash)

def Decided (base : List (Settlement Content)) (prepared : Prepared) (verdict : Verdict)
    (settled : List (Settlement Content)) : Prop :=
  (∃ entry rest, settled = entry :: (rest ++ base) ∧ entry.prepared = prepared ∧
    entry.verdict = verdict) ∧
    (verdict.outcome = .applied ↔ verdict.receipt.contentHash = prepared.targetHash)

theorem safe_conclude {verdict : Verdict}
    (hK : ∀ disk settled settled', K disk settled → K disk settled')
    (hv : verdict.outcome = .applied ↔ verdict.receipt.contentHash = journal.prepared.targetHash)
    (hw : a.Stage journal K w) :
    Safe (volatile schema process) a.Left
      (fun verdict => a.Stage journal
        (fun disk settled => K disk settled ∧ Decided a.base journal.prepared verdict settled))
      (fun _ => a.Left) (conclude journal.prepared verdict) w := by
  apply Safe.seq (Q := fun _ => a.Stage journal
    (fun disk settled => K disk settled ∧ Decided a.base journal.prepared verdict settled))
  · refine Safe.ask (Op.settle _ _) hw ?_ ?_
    · rintro choice w _ ⟨⟨hi, since, hs⟩, hk⟩ _
      exact ⟨⟨hi, _ :: since, congrArg (List.cons _) hs⟩, hK _ _ _ hk,
        ⟨_, since, congrArg (List.cons _) hs, rfl, rfl⟩, hv⟩
    · intro choice w failure _ herr
      cases herr
  · intro _ w hw
    exact Safe.ret hw

theorem crashFinding (schema : Schema Config Content) (process : Owner) (a : Attempt Config Content)
    (journal : Journal Config) (hK : ∀ disk settled settled', K disk settled → K disk settled') :
    Finding (volatile schema process) a.Left (a.Stage journal K) journal.config journal.prepared
      (fun _ => a.Stage journal K) (fun _ => a.Stage journal K) (fun _ => a.Stage journal K)
      (fun verdict => a.Stage journal
        (fun disk settled => K disk settled ∧ Decided a.base journal.prepared verdict settled)) :=
  finding_of_talks (fun op ht _ hw => safe_quiet op (isQuiet_of_talks ht) hw)
    (fun _ _ hw hv => safe_conclude hK hv hw)

end NodeManager.CrashPrograms
