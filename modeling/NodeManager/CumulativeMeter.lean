import NodeManager.HighWater
import NodeManager.Outcomes
import NodeManager.TrafficRecords

namespace NodeManager.CumulativeMeter

open Dictionary HighWater Outcomes TrafficRecords

inductive CounterRejected
  | nodeOrEpoch
  | generationOrSequence
  | batchSize
  | subject
  | directions
  | byteCounter
  | generationConflict
  | contentConflict
  | retiredEpoch
  | generationAdvance
  | outOfOrder
  | rollback
  deriving DecidableEq, Repr

structure Batch where
  node : String
  epoch : String
  generation : Int
  sequence : Int
  counters : Dict String (Dict String Int)
  deriving DecidableEq

structure Counter where
  bytes : Bytes
  sequence : Int

def Counter.total (counter : Counter) : Nat := counter.bytes.1 + counter.bytes.2

abbrev Key := String × String × String

structure Ledger where
  epochs : Dict (String × String) Int
  batches : Dict (String × String × Int) String
  counters : Dict Key Counter
  generations : ∀ node epoch other generation, epochs.get? (node, epoch) = some generation →
    epochs.get? (node, other) = some generation → epoch = other

def Ledger.empty : Ledger where
  epochs := Dict.empty
  batches := Dict.empty
  counters := Dict.empty
  generations := by simp

inductive Continuity
  | restartGapPossible
  | withinEpoch
  deriving DecidableEq, Repr

structure Receipt where
  applied : Bool
  duplicate : Bool
  delta : Nat
  continuity : Option Continuity
  deriving DecidableEq, Repr

def named (text : String) : Prop := text ≠ "" ∧ text.length ≤ 128

instance (text : String) : Decidable (named text) := inferInstanceAs (Decidable (_ ∧ _))

def maxInteger : Int := 2 ^ 63 - 1

def validCounter (entry : String × Dict String Int) : Except CounterRejected Unit := do
  require (named entry.1) .subject
  require (entry.2.keys.Perm ["upload", "download"]) .directions
  require (∀ value ∈ entry.2.entries, 0 ≤ value.2 ∧ value.2 ≤ maxInteger) .byteCounter

def valid (batch : Batch) : Except CounterRejected Unit := do
  require (named batch.node ∧ named batch.epoch) .nodeOrEpoch
  require ((1 ≤ batch.generation ∧ batch.generation ≤ maxInteger) ∧
    1 ≤ batch.sequence ∧ batch.sequence ≤ maxInteger) .generationOrSequence
  require (batch.counters.entries ≠ [] ∧ batch.counters.entries.length ≤ 10000) .batchSize
  batch.counters.entries.forM validCounter

def direction (values : Dict String Int) (name : String) : Nat := ((values.get? name).getD 0).toNat

def Batch.values (batch : Batch) : List (String × Bytes) :=
  batch.counters.entries.map (fun e => (e.1, direction e.2 "upload", direction e.2 "download"))

def Ledger.latest (ledger : Ledger) (node : String) : Option ((String × String) × Int) :=
  @List.argmax _ Int Int.instLinearOrder.toPreorder _ Prod.snd
    (ledger.epochs.entries.filter (fun e => e.1.1 = node))

theorem Ledger.le_latest {ledger : Ledger} {node epoch : String} {generation : Int}
    (h : ledger.epochs.get? (node, epoch) = some generation) :
    ∃ e, ledger.latest node = some e ∧ e.1.1 = node ∧ ledger.epochs.get? e.1 = some e.2 ∧
    generation ≤ e.2 := by
  have hmem : ((node, epoch), generation) ∈
      ledger.epochs.entries.filter (fun e => e.1.1 = node) := by
    simp [Dict.mem_entries_iff, h]
  cases hlatest : ledger.latest node with
  | none =>
    rw [Ledger.latest, List.argmax_eq_none] at hlatest
    rw [hlatest] at hmem
    cases hmem
  | some e =>
    have he := List.mem_filter.mp (List.argmax_mem (Option.mem_def.mpr hlatest))
    refine ⟨e, rfl, by simpa using he.2, Dict.mem_entries_iff.mp he.1, ?_⟩
    exact List.le_of_mem_argmax hmem (Option.mem_def.mpr hlatest)

def openEpoch (batch : Batch) (ledger : Ledger) : Except CounterRejected Ledger :=
  if h : (ledger.latest batch.node).all (fun e => e.2 < batch.generation) then
    .ok { ledger with
      epochs := ledger.epochs.set (batch.node, batch.epoch) batch.generation
      generations := by
        have hless : ∀ epoch generation, ledger.epochs.get? (batch.node, epoch) = some generation →
            generation < batch.generation := by
          intro epoch generation hget
          obtain ⟨e, hlatest, -, -, hle⟩ := Ledger.le_latest hget
          rw [hlatest] at h
          exact hle.trans_lt (by simpa using h)
        intro node epoch other generation hepoch hother
        simp only [Dict.get?_set, Prod.mk.injEq] at hepoch hother
        split at hepoch <;> split at hother
        next he ho => exact he.2.trans ho.2.symm
        next he ho =>
          cases hepoch
          exact absurd (hless other _ (he.1 ▸ hother)) (lt_irrefl _)
        next he ho =>
          cases hother
          exact absurd (hless epoch _ (ho.1 ▸ hepoch)) (lt_irrefl _)
        next => exact ledger.generations node epoch other generation hepoch hother }
  else .error .generationAdvance

def enterEpoch (batch : Batch) (ledger : Ledger) : Except CounterRejected Ledger :=
  match ledger.epochs.get? (batch.node, batch.epoch) with
  | some generation => do
    require (generation = batch.generation ∧
      (ledger.latest batch.node).all (fun e => e.1.2 = batch.epoch)) .retiredEpoch
    return ledger
  | none => openEpoch batch ledger

def sequences (batches : Dict (String × String × Int) String) (node epoch : String) : List Int :=
  (batches.keys.filter (fun k => k.1 = node ∧ k.2.1 = epoch)).map (fun k => k.2.2)

def post (node epoch : String) (sequence : Int) (s : Nat × Dict Key Counter)
    (entry : String × Bytes) :
    Except CounterRejected (Nat × Dict Key Counter) := do
  let old := ((s.2.get? (node, epoch, entry.1)).map Counter.bytes).getD 0
  require (old ≤ entry.2) .rollback
  return (s.1 + (entry.2.1 - old.1 + (entry.2.2 - old.2)),
    s.2.set (node, epoch, entry.1) ⟨entry.2, sequence⟩)

def prune (node epoch : String) (batches : Dict (String × String × Int) String) :
    Dict (String × String × Int) String :=
  let recent := ((sequences batches node epoch).insertionSort (· ≥ ·)).take 1024
  batches.filterKeys (fun k => ¬ (k.1 = node ∧ k.2.1 = epoch ∧ k.2.2 ∉ recent))

variable (digest : Dict String (Dict String Int) → String)

def apply (batch : Batch) (ledger : Ledger) : Except CounterRejected (Receipt × Ledger) := do
  let opened ← enterEpoch batch ledger
  require ((sequences opened.batches batch.node batch.epoch).max?.all
    (· < batch.sequence)) .outOfOrder
  let (delta, counters) ← batch.values.foldlM (post batch.node batch.epoch batch.sequence)
    (0, opened.counters)
  let batches := opened.batches.set (batch.node, batch.epoch, batch.sequence)
    (digest batch.counters)
  let restarted := (ledger.latest batch.node).isSome ∧
    (ledger.epochs.get? (batch.node, batch.epoch)).isNone
  return (⟨true, false, delta, some (if restarted then .restartGapPossible else .withinEpoch)⟩,
    { opened with counters := counters, batches := prune batch.node batch.epoch batches })

/-- `ingest`, of a hash of the sorted counters. A rejected call leaves the tables as they were. -/
def ingest (batch : Batch) (ledger : Ledger) : Except CounterRejected (Receipt × Ledger) := do
  valid batch
  require ((ledger.epochs.get? (batch.node, batch.epoch)).all (· = batch.generation))
    .generationConflict
  match ledger.batches.get? (batch.node, batch.epoch, batch.sequence) with
  | some old => do
    require (old = digest batch.counters) .contentConflict
    return (⟨false, true, 0, none⟩, ledger)
  | none => apply digest batch ledger

structure Totals where
  upload : Option Nat
  download : Option Nat
  total : Option Nat
  available : Bool
  components : List (String × String × Bytes)
  deriving DecidableEq

def totals (ledger : Ledger) (subject : String) : Totals :=
  let rows := ledger.counters.entries.filter (fun e => e.1.2.2 = subject)
  let sum := (rows.map (fun e => e.2.bytes)).sum
  let known := fun n : Nat => if rows = [] then none else some n
  ⟨known sum.1, known sum.2, known (sum.1 + sum.2), rows ≠ [],
    rows.map (fun e => (e.1.1, e.1.2.1, e.2.bytes))⟩

def Batch.posted (batch : Batch) : List (Key × Bytes) :=
  (batch.values.map (fun e => ((batch.node, batch.epoch, e.1), e.2))).reverse

theorem mem_components {ledger : Ledger} {subject node epoch : String} {bytes : Bytes} :
    (node, epoch, bytes) ∈ (totals ledger subject).components ↔
      (ledger.counters.get? (node, epoch, subject)).map Counter.bytes = some bytes := by
  simp only [totals, List.mem_map, List.mem_filter, decide_eq_true_eq, Option.map_eq_some_iff]
  constructor
  · rintro ⟨⟨⟨_, _, _⟩, counter⟩, ⟨hmem, rfl⟩, heq⟩
    cases heq
    exact ⟨counter, Dict.mem_entries_iff.mp hmem, rfl⟩
  · rintro ⟨counter, hget, rfl⟩
    exact ⟨((node, epoch, subject), counter), ⟨Dict.mem_entries_iff.mpr hget, rfl⟩, rfl⟩

theorem totals_eq (ledger : Ledger) (subject : String) :
    let t := totals ledger subject
    let sum := (t.components.map (fun c => c.2.2)).sum
    if t.components = [] then t = ⟨none, none, none, false, []⟩
    else t = ⟨some sum.1, some sum.2, some (sum.1 + sum.2), true, t.components⟩ := by
  simp only [totals, List.map_map, Function.comp_def, List.map_eq_nil_iff]
  split
  next hnone => simp [hnone]
  next hsome => simp [hsome]

section Specs

variable {batch : Batch} {ledger ledger' : Ledger} {receipt : Receipt} {node epoch : String}
  {sequence : Int} {counters : Dict Key Counter} {s : Nat × Dict Key Counter}
  {batches : Dict (String × String × Int) String}

structure Posted (node epoch : String) (counters : Dict Key Counter) (seen : List (String × Bytes))
    (s : Nat × Dict Key Counter) : Prop where
  marks : ∀ log, Marks counters Counter.bytes log →
    Marks s.2 Counter.bytes ((seen.map (fun e => ((node, epoch, e.1), e.2))).reverse ++ log)
  others : ∀ k : Key, (k.1, k.2.1) ≠ (node, epoch) → s.2.get? k = counters.get? k
  grown : ∑ᶠ k, s.2.valueAt Counter.total k = ∑ᶠ k, counters.valueAt Counter.total k + s.1

theorem Posted.post {seen : List (String × Bytes)} {s' : Nat × Dict Key Counter}
    {entry : String × Bytes} (hs : Posted node epoch counters seen s)
    (h : post node epoch sequence s entry = .ok s') :
    Posted node epoch counters (seen ++ [entry]) s' := by
  obtain ⟨_, hle, h⟩ := bind_eq_ok h
  cases h
  have hle := of_require hle
  constructor
  · intro log hlog
    rw [List.map_append, List.reverse_append]
    refine (hs.marks log hlog).set (fun old hold => ?_)
    simpa [hold] using hle
  · intro k hk
    rw [← hs.others k hk, Dict.get?_set, if_neg]
    rintro rfl
    exact hk rfl
  have hset := Dict.finsum_valueAt_set_add s.2 Counter.total (node, epoch, entry.1)
    ⟨entry.2, sequence⟩
  have hold : s.2.valueAt Counter.total (node, epoch, entry.1) =
      (((s.2.get? (node, epoch, entry.1)).map Counter.bytes).getD 0).1 +
        (((s.2.get? (node, epoch, entry.1)).map Counter.bytes).getD 0).2 := by
    unfold Dict.valueAt
    cases s.2.get? (node, epoch, entry.1) <;> rfl
  have hgrown := hs.grown
  have hup := hle.1
  have hdown := hle.2
  simp only [Counter.total] at hset ⊢
  omega

theorem posted_of_ok {values : List (String × Bytes)}
    (h : values.foldlM (post node epoch sequence) (0, counters) = .ok s) :
    Posted node epoch counters values s := by
  refine foldlM_ok (motive := fun seen t => Posted node epoch counters seen t) ?_ ?_ h
  · intro seen t entry t' _ ht hstep
    exact ht.post hstep
  · exact ⟨fun log hlog => hlog, fun k _ => rfl, rfl⟩

theorem mem_take_of_greatest {l : List Int} {m : Int} (hm : m ∈ l) (hmost : ∀ n ∈ l, n ≤ m)
    (count : Nat) :
    m ∈ (l.insertionSort (· ≥ ·)).take (count + 1) := by
  have hsorted := List.pairwise_insertionSort (· ≥ ·) l
  have hmem : m ∈ l.insertionSort (· ≥ ·) := (List.mem_insertionSort _).mpr hm
  cases hsort : l.insertionSort (· ≥ ·) with
  | nil =>
    rw [hsort] at hmem
    cases hmem
  | cons first rest =>
    have hfirst : first ∈ l := (List.mem_insertionSort (· ≥ ·)).mp
      (by rw [hsort]; exact List.mem_cons_self)
    rw [hsort] at hmem hsorted
    obtain rfl | hrest := List.mem_cons.mp hmem
    · exact List.mem_cons_self
    have heq : m = first := le_antisymm ((List.pairwise_cons.mp hsorted).1 m hrest)
      (hmost first hfirst)
    rw [heq]
    exact List.mem_cons_self

theorem mem_sequences : sequence ∈ sequences batches node epoch ↔
    (node, epoch, sequence) ∈ batches.keys := by
  simp [sequences]

theorem mem_keys_prune {k : String × String × Int} : k ∈ (prune node epoch batches).keys ↔
      k ∈ batches.keys ∧ (k.1 = node → k.2.1 = epoch →
        k.2.2 ∈ ((sequences batches node epoch).insertionSort (· ≥ ·)).take 1024) := by
  rw [Dict.mem_keys_iff, Dict.mem_keys_iff, prune, Dict.get?_filterKeys]
  simp only [not_and, not_not, decide_eq_true_eq]
  split
  next hrecent => exact ⟨fun hk => ⟨hk, hrecent⟩, And.left⟩
  next hold => exact ⟨by simp, fun hk => absurd hk.2 hold⟩

theorem enterEpoch_ok {opened : Ledger} (h : enterEpoch batch ledger = .ok opened) :
    (∀ epoch generation, ledger.epochs.get? (batch.node, epoch) = some generation →
      generation ≤ batch.generation) ∧
      opened.batches = ledger.batches ∧ opened.counters = ledger.counters ∧
      ∀ k, opened.epochs.get? k =
        if k = (batch.node, batch.epoch) then some batch.generation else ledger.epochs.get? k := by
  unfold enterEpoch at h
  split at h
  next generation hget =>
    obtain ⟨_, hrequired, h⟩ := bind_eq_ok h
    cases h
    obtain ⟨rfl, hlast⟩ := of_require hrequired
    refine ⟨fun epoch generation hepoch => ?_, rfl, rfl, fun k => ?_⟩
    · obtain ⟨⟨⟨node, last⟩, most⟩, hlatest, hnode, hmost, hle⟩ := Ledger.le_latest hepoch
      rw [hlatest] at hlast
      dsimp only at hnode hmost hle
      have hlast : last = batch.epoch := by simpa using hlast
      rw [hnode, hlast, hget] at hmost
      cases hmost
      exact hle
    · split
      next hk => rw [hk, hget]
      · rfl
  next hget =>
    unfold openEpoch at h
    split at h
    next hless =>
      cases h
      refine ⟨fun epoch generation hepoch => ?_, rfl, rfl, fun k => Dict.get?_set _ _ _ k⟩
      obtain ⟨e, hlatest, -, -, hle⟩ := Ledger.le_latest hepoch
      rw [hlatest] at hless
      exact hle.trans (le_of_lt (by simpa using hless))
    · cases h

structure Applied (batch : Batch) (ledger ledger' : Ledger) (delta : Nat) : Prop where
  known : ∀ generation, ledger.epochs.get? (batch.node, batch.epoch) = some generation →
    generation = batch.generation
  latest : ∀ epoch generation, ledger.epochs.get? (batch.node, epoch) = some generation →
    generation ≤ batch.generation
  ordered : ∀ sequence, (batch.node, batch.epoch, sequence) ∈ ledger.batches.keys →
    sequence < batch.sequence
  epochs : ∀ k, ledger'.epochs.get? k =
    if k = (batch.node, batch.epoch) then some batch.generation else ledger.epochs.get? k
  kept : (batch.node, batch.epoch, batch.sequence) ∈ ledger'.batches.keys
  batches : ∀ k : String × String × Int, (k.1, k.2.1) ≠ (batch.node, batch.epoch) →
    (k ∈ ledger'.batches.keys ↔ k ∈ ledger.batches.keys)
  marks : ∀ log, Marks ledger.counters Counter.bytes log →
    Marks ledger'.counters Counter.bytes (batch.posted ++ log)
  others : ∀ k : Key, (k.1, k.2.1) ≠ (batch.node, batch.epoch) →
    ledger'.counters.get? k = ledger.counters.get? k
  grown : ∑ᶠ k, ledger'.counters.valueAt Counter.total k = ∑ᶠ k,
    ledger.counters.valueAt Counter.total k + delta

theorem apply_ok (hknown : ∀ generation,
      ledger.epochs.get? (batch.node, batch.epoch) = some generation →
      generation = batch.generation)
    (h : apply digest batch ledger = .ok (receipt, ledger')) :
    receipt.applied = true ∧ Applied batch ledger ledger' receipt.delta := by
  obtain ⟨opened, hopened, h⟩ := bind_eq_ok h
  obtain ⟨_, hordered, h⟩ := bind_eq_ok h
  obtain ⟨⟨delta, counters⟩, hposted, h⟩ := bind_eq_ok h
  cases h
  obtain ⟨hlatest, hbatches, hcounters, hepochs⟩ := enterEpoch_ok hopened
  have hordered := of_require hordered
  rw [hbatches] at hordered
  rw [hcounters] at hposted
  have hposted := posted_of_ok hposted
  have hless : ∀ sequence, (batch.node, batch.epoch, sequence) ∈ ledger.batches.keys →
      sequence < batch.sequence := by
    intro sequence hmem
    rw [← mem_sequences] at hmem
    cases hmax : (sequences ledger.batches batch.node batch.epoch).max? with
    | none =>
      rw [List.max?_eq_none_iff] at hmax
      rw [hmax] at hmem
      cases hmem
    | some most =>
      rw [hmax] at hordered
      exact ((List.max?_eq_some_iff.mp hmax).2 sequence hmem).trans_lt (by simpa using hordered)
  refine ⟨rfl, hknown, hlatest, hless, hepochs, ?_, ?_, hposted.marks, hposted.others,
    hposted.grown⟩
  · refine mem_keys_prune.mpr ⟨Dict.mem_keys_set.mpr (.inl rfl), fun _ _ => ?_⟩
    refine mem_take_of_greatest (mem_sequences.mpr (Dict.mem_keys_set.mpr (.inl rfl)))
      (fun sequence hmem => ?_) 1023
    rw [mem_sequences, Dict.mem_keys_set, hbatches] at hmem
    obtain heq | hmem := hmem
    · simp_all
    · exact (hless sequence hmem).le
  · intro k hk
    rw [mem_keys_prune, Dict.mem_keys_set, hbatches]
    constructor
    · rintro ⟨rfl | hmem, -⟩
      · exact absurd rfl hk
      · exact hmem
    · intro hmem
      exact ⟨.inr hmem, fun hnode hepoch => absurd (Prod.ext hnode hepoch) hk⟩

theorem ingest_ok (h : ingest digest batch ledger = .ok (receipt, ledger')) :
    (receipt.applied = false ∧ receipt.delta = 0 ∧ ledger' = ledger) ∨
      (receipt.applied = true ∧ Applied batch ledger ledger' receipt.delta) := by
  obtain ⟨_, _, h⟩ := bind_eq_ok h
  obtain ⟨_, hknown, h⟩ := bind_eq_ok h
  have hknown := of_require hknown
  split at h
  next =>
    obtain ⟨_, _, h⟩ := bind_eq_ok h
    cases h
    exact .inl ⟨rfl, rfl, rfl⟩
  next =>
    refine .inr (apply_ok digest (fun generation hget => ?_) h)
    simpa [hget] using hknown

end Specs

end NodeManager.CumulativeMeter
