import NodeManager.CumulativeMeter
import NodeManager.Runs

namespace NodeManager.MeterRuns

open CumulativeMeter Dictionary HighWater Runs TrafficRecords

structure World where
  ledger : Ledger := Ledger.empty
  answers : List (Batch × Except CounterRejected Receipt) := []

variable (digest : Dict String (Dict String Int) → String)

def World.next (batch : Batch) (w : World) : World :=
  match ingest digest batch w.ledger with
  | .ok (receipt, ledger) => ⟨ledger, (batch, .ok receipt) :: w.answers⟩
  | .error e => ⟨w.ledger, (batch, .error e) :: w.answers⟩

def answer (batch : Batch) (ledger : Ledger) : Except CounterRejected Receipt :=
  (ingest digest batch ledger).map Prod.fst

def applied : Except CounterRejected Receipt → Bool
  | .ok receipt => receipt.applied
  | .error _ => false

def delta : Except CounterRejected Receipt → Nat
  | .ok receipt => receipt.delta
  | .error _ => 0

def World.applied (w : World) : List Batch :=
  (w.answers.filter (fun a => MeterRuns.applied a.2)).map Prod.fst

def World.accepted (w : World) : List (Key × Bytes) := w.applied.flatMap Batch.posted

def World.deltas (w : World) : Nat := (w.answers.map (fun a => delta a.2)).sum

def World.counted (w : World) : Nat := (w.ledger.counters.entries.map (fun e => e.2.total)).sum

section Steps

variable {w : World} {epoch : String} {counters : Dict Key Counter}

theorem next_cases (w : World) (batch : Batch) :
    (applied (answer digest batch w.ledger) = false ∧ (w.next digest batch).ledger = w.ledger ∧
      (w.next digest batch).applied = w.applied ∧ (w.next digest batch).deltas = w.deltas) ∨
    (applied (answer digest batch w.ledger) = true ∧
      (w.next digest batch).applied = batch :: w.applied ∧
      ∃ growth, Applied batch w.ledger (w.next digest batch).ledger growth ∧
        (w.next digest batch).deltas = growth + w.deltas) := by
  unfold World.next answer
  cases hingest : ingest digest batch w.ledger with
  | error e =>
    exact .inl ⟨rfl, rfl, by simp [World.applied, applied], by simp [World.deltas, delta]⟩
  | ok result =>
    obtain ⟨receipt, ledger⟩ := result
    obtain ⟨happlied, hdelta, rfl⟩ | ⟨happlied, hstep⟩ := ingest_ok digest hingest
    · exact .inl ⟨happlied,
        rfl, by simp [World.applied, applied, happlied], by simp [World.deltas, delta, hdelta]⟩
    · refine .inr ⟨happlied, by simp [World.applied, applied, happlied], receipt.delta, hstep, ?_⟩
      simp [World.deltas, delta]

/-- The tables agree with the answers: the counters are the last and greatest accepted ones and sum
up to the growth, and the epoch of an applied batch is known, with a digest that is not older. -/
structure Inv (w : World) : Prop where
  marks : Marks w.ledger.counters Counter.bytes w.accepted
  sum : w.deltas = ∑ᶠ k, w.ledger.counters.valueAt Counter.total k
  epochs : ∀ b ∈ w.applied, w.ledger.epochs.get? (b.node, b.epoch) = some b.generation
  window : ∀ b ∈ w.applied, ∃ sequence ≥ b.sequence,
    (b.node, b.epoch, sequence) ∈ w.ledger.batches.keys

theorem inv_empty : Inv {} := by
  refine ⟨marks_empty, ?_, by simp [World.applied], by simp [World.applied]⟩
  simp [World.deltas, Ledger.empty, Dict.valueAt]

theorem Inv.next (hw : Inv w) (batch : Batch) : Inv (w.next digest batch) := by
  obtain ⟨-, hledger, happlied, hdeltas⟩ | ⟨-, happlied, growth, hstep, hdeltas⟩ :=
    next_cases digest w batch
  · obtain ⟨hmarks, hsum, hepochs, hwindow⟩ := hw
    constructor
    · rwa [hledger, World.accepted, happlied]
    · rwa [hledger, hdeltas]
    · rwa [hledger, happlied]
    · rwa [hledger, happlied]
  · constructor
    · rw [World.accepted, happlied]
      exact hstep.marks _ hw.marks
    · rw [hdeltas, hstep.grown, hw.sum, add_comm]
    · intro b hb
      rw [hstep.epochs]
      split
      next hsame =>
        rw [happlied] at hb
        obtain rfl | hb := List.mem_cons.mp hb
        · rfl
        have hepoch := hw.epochs b hb
        rw [hsame] at hepoch
        rw [hstep.known _ hepoch]
      next hother =>
        rw [happlied] at hb
        obtain rfl | hb := List.mem_cons.mp hb
        · exact absurd rfl hother
        · exact hw.epochs b hb
    · intro b hb
      rw [happlied] at hb
      obtain rfl | hb := List.mem_cons.mp hb
      · exact ⟨b.sequence, le_refl _, hstep.kept⟩
      obtain ⟨sequence, hle, hmem⟩ := hw.window b hb
      by_cases hsame : (b.node, b.epoch) = (batch.node, batch.epoch)
      · obtain ⟨hnode, hepoch⟩ := Prod.mk.inj hsame
        rw [hnode, hepoch] at hmem ⊢
        exact ⟨batch.sequence, hle.trans (hstep.ordered sequence hmem).le, hstep.kept⟩
      · exact ⟨sequence, hle, (hstep.batches _ hsame).mpr hmem⟩

theorem Inv.run (batches : List Batch) : Inv (run (World.next digest) batches {}) :=
  run_preserves (fun _ batch hw => hw.next digest batch) batches inv_empty

structure Frozen (node epoch : String) (counters : Dict Key Counter) (ledger : Ledger) : Prop where
  retired : ∃ newer generation later, ledger.epochs.get? (node, epoch) = some generation ∧
    ledger.epochs.get? (node, newer) = some later ∧ generation < later
  same : ∀ subject, ledger.counters.get? (node, epoch, subject) =
    counters.get? (node, epoch, subject)

theorem Frozen.next {node : String} (hw : Frozen node epoch counters w.ledger) (batch : Batch) :
    Frozen node epoch counters (w.next digest batch).ledger := by
  obtain ⟨-, hledger, -⟩ | ⟨-, -, growth, hstep, -⟩ := next_cases digest w batch
  · rwa [hledger]
  obtain ⟨⟨newer, generation, later, hold, hnew, hless⟩, hsame⟩ := hw
  have hne : (node, epoch) ≠ (batch.node, batch.epoch) := by
    intro heq
    obtain ⟨rfl, rfl⟩ := Prod.mk.inj heq
    have hgeneration := hstep.known generation hold
    have hlater := hstep.latest newer later hnew
    omega
  refine ⟨?_, fun subject => (hstep.others (node, epoch, subject) hne).trans (hsame subject)⟩
  by_cases hnewer : (node, newer) = (batch.node, batch.epoch)
  · refine ⟨newer, generation, batch.generation, ?_, ?_, ?_⟩
    · rw [hstep.epochs, if_neg hne, hold]
    · rw [hstep.epochs, if_pos hnewer]
    · obtain ⟨rfl, rfl⟩ := Prod.mk.inj hnewer
      rwa [← hstep.known later hnew]
  · refine ⟨newer, generation, later, ?_, ?_, hless⟩
    · rw [hstep.epochs, if_neg hne, hold]
    · rw [hstep.epochs, if_neg hnewer, hnew]

theorem Frozen.run {node : String} (hw : Frozen node epoch counters w.ledger)
    (batches : List Batch) :
    Frozen node epoch counters (run (World.next digest) batches w).ledger := by
  induction batches generalizing w with
  | nil => exact hw
  | cons batch batches ih => exact ih (hw.next digest batch)

end Steps

/-- The meter is a ledger of what it accepted, after any calls. -/
theorem meter_faithful (batches : List Batch) :
    let w := run (World.next digest) batches {}
    (w.deltas = w.counted ∧
      ∀ key, (w.ledger.counters.get? key).map Counter.bytes =
      (w.accepted.find? (fun e => e.1 = key)).map Prod.snd ∧
        ∀ counter, w.ledger.counters.get? key = some counter →
          IsGreatest {bytes | (key, bytes) ∈ w.accepted} counter.bytes) ∧
    (∀ batch, applied (answer digest batch w.ledger) = false →
      (w.next digest batch).ledger = w.ledger ∧ (w.next digest batch).deltas = w.deltas) ∧
    (∀ old ∈ w.applied, ∀ new ∈ w.applied, old.node = new.node → old.generation < new.generation →
      ∀ more subject, (run (World.next digest) more w).ledger.counters.get?
      (old.node, old.epoch, subject) =
        w.ledger.counters.get? (old.node, old.epoch, subject)) ∧
    ∀ accepted ∈ w.applied, ∀ batch, batch.node = accepted.node → batch.epoch = accepted.epoch →
      batch.sequence ≤ accepted.sequence → applied (answer digest batch w.ledger) = false := by
  intro w
  have hw : Inv w := Inv.run digest batches
  refine ⟨⟨?_, fun key => ⟨hw.marks.last key,
    fun counter hget => hw.marks.isGreatest hget⟩⟩, ?_, ?_, ?_⟩
  · rw [hw.sum, World.counted, Dict.sum_entries]
  · intro batch hnot
    obtain ⟨-, hledger, -, hdeltas⟩ | ⟨happlied, -⟩ := next_cases digest w batch
    · exact ⟨hledger, hdeltas⟩
    · cases hnot.symm.trans happlied
  · intro old hold new hnew hnode hless more subject
    have hfrozen : Frozen old.node old.epoch w.ledger.counters w.ledger := by
      refine ⟨⟨new.epoch, old.generation, new.generation, hw.epochs old hold, ?_, hless⟩,
        fun _ => rfl⟩
      rw [hnode]
      exact hw.epochs new hnew
    exact (hfrozen.run digest more).same subject
  · intro accepted hmem batch hnode hepoch hle
    obtain ⟨hnot, -⟩ | ⟨-, -, growth, hstep, -⟩ := next_cases digest w batch
    · exact hnot
    obtain ⟨sequence, hge, hkey⟩ := hw.window accepted hmem
    rw [← hnode, ← hepoch] at hkey
    have hlt := hstep.ordered sequence hkey
    omega

/-- A subject's totals sum up the latest accepted counters of all nodes and epochs. A call that is
rejected, or repeats an earlier one, leaves them as they are. -/
theorem totals_faithful (batches : List Batch) (subject : String) :
    let w := run (World.next digest) batches {}
    (∀ node epoch bytes, (node, epoch, bytes) ∈ (totals w.ledger subject).components ↔
      (w.accepted.find? (fun e => e.1 = (node, epoch, subject))).map Prod.snd = some bytes) ∧
    ∀ batch, applied (answer digest batch w.ledger) = false →
      totals (w.next digest batch).ledger subject = totals w.ledger subject := by
  intro w
  have hw : Inv w := Inv.run digest batches
  refine ⟨fun node epoch bytes => ?_, fun batch hnot => ?_⟩
  · rw [mem_components, hw.marks.last]
  · obtain ⟨-, hledger, -⟩ | ⟨happlied, -⟩ := next_cases digest w batch
    · rw [hledger]
    · cases hnot.symm.trans happlied

def batchOf (epoch : String) (generation sequence upload download : Int) : Batch where
  node := "n1"
  epoch := epoch
  generation := generation
  sequence := sequence
  counters := Dict.empty.set "alice" ((Dict.empty.set "upload" upload).set "download" download)

def restarted : List Batch :=
  [batchOf "e1" 1 1 10 5, batchOf "e1" 1 3 12 5, batchOf "e1" 1 2 11 5, batchOf "e2" 2 1 3 0]

theorem restarted_faithful : (run (World.next fun _ => "") restarted {}).deltas = 20 ∧
      (run (World.next fun _ => "") restarted {}).counted = 20 ∧
      (∀ more subject, (run (World.next fun _ => "") more
          (run (World.next fun _ => "") restarted {})).ledger.counters.get? ("n1", "e1", subject) =
        (run (World.next fun _ => "") restarted {}).ledger.counters.get? ("n1", "e1", subject)) ∧
      applied (answer (fun _ => "") (batchOf "e1" 1 2 11 5)
        (run (World.next fun _ => "") restarted {}).ledger) = false := by
  obtain ⟨⟨hsum, -⟩, -, hfrozen, hordered⟩ := meter_faithful (fun _ => "") restarted
  have hdeltas : (run (World.next fun _ => "") restarted {}).deltas = 20 := by decide +kernel
  refine ⟨hdeltas, hsum.symm.trans hdeltas, ?_, ?_⟩
  · exact hfrozen (batchOf "e1" 1 3 12 5) (by decide +kernel) (batchOf "e2" 2 1 3 0)
      (by decide +kernel) rfl (by decide)
  · exact hordered (batchOf "e1" 1 3 12 5) (by decide +kernel) (batchOf "e1" 1 2 11 5) rfl
      rfl (by decide)

end NodeManager.MeterRuns
