import NodeManager.Dictionary
import NodeManager.Programs

namespace NodeManager.WriteQueue

open Dictionary Programs

inductive TaskState
  | queued
  | running
  | unknown
  | succeeded
  | failed
  | cancelled
  | notApplied
  deriving DecidableEq, Repr

def TaskState.terminal : TaskState → Bool
  | .queued | .running | .unknown => false
  | .succeeded | .failed | .cancelled | .notApplied => true

/-- Identifiers are random in the source; here they are numbers that are never used twice. -/
abbrev TaskId := Nat

abbrev Batch := Nat

structure Item (Callback : Type) where
  taskId : TaskId
  callback : Callback
  size : Nat
  units : Nat
  isolated : Bool
  fingerprint : String
  keys : List String
  deriving Repr

inductive Failure (Error : Type)
  | batchRejected (index : Nat) (error : Error)
  | recoveryRequired (message : String)
  | exception (error : Error)
  deriving DecidableEq, Repr

structure Proof (Value : Type) where
  fingerprint : String
  result : Value
  deriving DecidableEq, Repr

structure Transaction (Value : Type) where
  batch : Batch
  proof : Dict TaskId (Proof Value)
  deriving DecidableEq, Repr

structure Ending (Value Error : Type) where
  state : TaskState
  result : Option Value := none
  error : Option (Failure Error) := none
  reason : Option String := none
  deriving DecidableEq, Repr

structure Staged (Value : Type) where
  results : List Value
  changed : Bool
  deriving DecidableEq, Repr

variable {Callback Value Error : Type}

def bars (batchSize : Nat) (items : List (Item Callback)) (units size : Nat) (keys : List String)
    (item : Item Callback) : Bool :=
  !items.isEmpty && (item.isolated || items.head?.any (·.isolated) || keys.any (· ∈ item.keys) ||
    decide (batchSize < units + item.units) || decide (2 ^ 20 < size + item.size))

def fill (batchSize : Nat) (items : List (Item Callback)) (units size : Nat) (keys : List String) :
    List (Item Callback) → List (Item Callback) × List (Item Callback)
  | [] => (items, [])
  | item :: pending =>
    if bars batchSize items units size keys item then (items, item :: pending)
    else fill batchSize (items ++ [item]) (units + item.units) (size + item.size)
      (keys ++ item.keys) pending

def collect (batchSize : Nat) (pending : List (Item Callback)) :
    List (Item Callback) × List (Item Callback) :=
  fill batchSize [] 0 0 [] pending

theorem fill_append (batchSize : Nat) (items pending : List (Item Callback)) (units size : Nat)
    (keys : List String) :
    (fill batchSize items units size keys pending).1 ++
    (fill batchSize items units size keys pending).2 =
      items ++ pending := by
  induction pending generalizing items units size keys with
  | nil => rfl
  | cons item pending ih =>
    rw [fill]
    split
    · rfl
    · rw [ih, List.append_assoc, List.singleton_append]

theorem collect_append (batchSize : Nat) (pending : List (Item Callback)) :
    (collect batchSize pending).1 ++ (collect batchSize pending).2 = pending :=
  fill_append batchSize [] pending 0 0 []

theorem subset_fill (batchSize : Nat) (items pending : List (Item Callback)) (units size : Nat)
    (keys : List String) :
    items ⊆ (fill batchSize items units size keys pending).1 := by
  induction pending generalizing items units size keys with
  | nil => exact List.Subset.refl items
  | cons item pending ih =>
    rw [fill]
    split
    · exact List.Subset.refl items
    · exact List.Subset.trans (List.subset_append_left items [item]) (ih _ _ _ _)

theorem collect_ne_nil (batchSize : Nat) (item : Item Callback) (pending : List (Item Callback)) :
    (collect batchSize (item :: pending)).1 ≠ [] := by
  have hmem : item ∈ (collect batchSize (item :: pending)).1 :=
    subset_fill batchSize [item] pending _ _ _ List.mem_cons_self
  exact List.ne_nil_of_mem hmem

inductive Op (Callback Value Error : Type)
  | checkMode
  | begin (tasks : List TaskId)
  | mutate (batch : Batch) (items : List (Item Callback))
  | openJournal (transaction : Transaction Value)
  | writeRecords (transaction : Transaction Value)
  | settle (transaction : Transaction Value)
  | finish (item : Item Callback) (ending : Ending Value Error)
  | paused
  | pause
  | batches (tasks : List TaskId)
  | cleanupReceipt (batch : Batch)
  | listReceipts
  | awake
  | collect
  | stop
  | drain
  | recoverWal
  | reconcileRows
  | resume

@[reducible] def Answer : Op Callback Value Error → Type
  | .checkMode | .paused | .awake => Bool
  | .begin _ => Batch
  | .mutate _ _ => Staged Value
  | .batches _ | .listReceipts => List Batch
  | .reconcileRows => Option (List Batch)
  | .collect => Option (List (Item Callback))
  | .drain => List (Item Callback)
  | _ => Unit

abbrev Writer (Callback Value Error : Type) := Prog (@Answer Callback Value Error) (Failure Error)

def ask (op : Op Callback Value Error) : Writer Callback Value Error (Answer op) := Prog.ask op

def raise {α : Type} (failure : Failure Error) : Writer Callback Value Error α := Prog.raise failure

def proofOf (items : List (Item Callback)) (results : List Value) : Dict TaskId (Proof Value) :=
  (items.zip results).foldl (fun proof entry =>
    proof.set entry.1.taskId ⟨entry.1.fingerprint, entry.2⟩) Dict.empty

/-- `commit_files` with the receipts. A failed write is left to the recovery that settles the
outcome. -/
def publish (transaction : Transaction Value) : Writer Callback Value Error Unit := do
  ask (.openJournal transaction)
  let _ ← (ask (.writeRecords transaction)).attempt
  ask (.settle transaction)

def apply (items : List (Item Callback)) : Writer Callback Value Error (List Value) := do
  if ← ask .checkMode then
    let batch ← ask (.begin (items.map (·.taskId)))
    let staged ← ask (.mutate batch items)
    if staged.changed then
      publish ⟨batch, proofOf items staged.results⟩
    pure staged.results
  else raise (.recoveryRequired "runtime mode changed while tasks were queued; no restart fallback")

def finish (item : Item Callback) (ending : Ending Value Error) :
    Writer Callback Value Error Unit :=
  ask (.finish item ending)

def finishAll (ending : Ending Value Error) (items : List (Item Callback)) :
    Writer Callback Value Error Unit :=
  Prog.forEach (fun item => finish item ending) items

def succeeded (result : Value) : Ending Value Error :=
  { state := .succeeded, result := some result }

def finishEach (entries : List (Item Callback × Value)) : Writer Callback Value Error Unit :=
  Prog.forEach (fun entry => finish entry.1 (succeeded entry.2)) entries

def cleanupReceipts (batches : List Batch) : Writer Callback Value Error Unit := do
  Prog.forEach (fun batch => ask (.cleanupReceipt batch)) batches
  let listed ← ask .listReceipts
  Prog.forEach (fun batch => ask (.cleanupReceipt batch)) (listed.take 256)

def cleanup (items : List (Item Callback)) : Writer Callback Value Error Unit := do
  let batches ← ask (.batches (items.map (·.taskId)))
  cleanupReceipts batches

def unknown (failure : Failure Error) : Ending Value Error :=
  { state := .unknown, error := some failure, reason := some "RUNTIME_RECONCILIATION_REQUIRED" }

def publicationFailed (error : Error) : Ending Value Error :=
  { state := .failed, error := some (.exception error), reason := some "PUBLICATION_FAILED" }

def mutationRejected (error : Error) : Ending Value Error :=
  { state := .failed, error := some (.exception error), reason := some "MUTATION_REJECTED" }

def cancelled (reason : String) : Ending Value Error :=
  { state := .cancelled, reason := some reason }

/-- `_process` for a rejected batch: the prefix is replayed, and the batch goes on after the bad
request. -/
def processRejected (process : List (Item Callback) → Writer Callback Value Error Unit)
    (items : List (Item Callback)) (index : Nat) (error : Error) :
    Writer Callback Value Error Unit := do
  Prog.when (0 < index) (process (items.take index))
  finishAll (mutationRejected error) items[index]?.toList
  Prog.when (index + 1 < items.length) (do
    if ← ask .paused then
      finishAll (cancelled "PRIOR_PUBLICATION_UNCERTAIN") (items.drop (index + 1))
    else process (items.drop (index + 1)))

/-- `_process`. Every recursive call is on fewer items, so their number bounds the depth. -/
def processWithin : Nat → List (Item Callback) → Writer Callback Value Error Unit
  | 0, _ => pure ()
  | depth + 1, items => Prog.ensure (do
      match ← (apply items).attempt with
      | .ok results => finishEach (items.zip results)
      | .error (.batchRejected index error) =>
        processRejected (processWithin depth) items index error
      | .error (.recoveryRequired message) =>
        ask .pause
        finishAll (unknown (.recoveryRequired message)) items
      | .error (.exception error) => finishAll (publicationFailed error) items)
    (cleanup items)

def process (items : List (Item Callback)) : Writer Callback Value Error Unit :=
  processWithin items.length items

/-- The loop of `_run`, for a number of rounds; in some the worker goes on waiting. The queue may be
paused or closed before the batch is collected. -/
def rounds : Nat → Writer Callback Value Error Unit
  | 0 => pure ()
  | n + 1 => do
    if ← ask .awake then
      match ← ask .collect with
      | none => pure ()
      | some items =>
        process items
        rounds n
    else rounds n

def shutdown : Writer Callback Value Error Unit := do
  let items ← ask .drain
  finishAll (cancelled "WRITER_SHUTDOWN_BEFORE_APPLY") items

def runWorker (n : Nat) : Writer Callback Value Error Unit :=
  Prog.ensure ((rounds n).handle (fun failure => do
    ask .stop
    raise failure)) shutdown

/-- `recover_receipts`; while a journal is there the rows are left alone and the queue is paused. -/
def recoverReceipts : Writer Callback Value Error Unit := do
  match ← ask .reconcileRows with
  | none => pure ()
  | some batches =>
    cleanupReceipts batches
    ask .resume

def lifetime (n : Nat) : Writer Callback Value Error Unit := do
  ask .recoverWal
  recoverReceipts
  runWorker n

end NodeManager.WriteQueue
