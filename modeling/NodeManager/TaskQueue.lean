import Mathlib.Logic.Relation
import NodeManager.WriteQueue

namespace NodeManager.TaskQueue

open Dictionary Programs Relation WriteQueue

structure Row (Value : Type) where
  requestKey : Option String
  fingerprint : String
  state : TaskState
  batch : Option Batch
  result : Option Value
  reason : Option String
  units : Nat
  deriving DecidableEq, Repr

/-- A pending runtime journal: of a batch of the queue, or of a publication made elsewhere. -/
inductive Wal (Value : Type)
  | batch (transaction : Transaction Value)
  | other
  deriving DecidableEq, Repr

structure Commit where
  batch : Batch
  tasks : List TaskId
  changed : Bool
  deriving DecidableEq, Repr

/-- The keys that `submit` gets, from the task API and from `mutate_config`. -/
inductive RequestKey
  | task (idempotencyKey : String)
  | legacy (key : String) (ordinal : Nat)
  deriving DecidableEq, Repr

def RequestKey.text : RequestKey → String
  | .task idempotencyKey => "task:" ++ idempotencyKey
  | .legacy key ordinal => "legacy:" ++ key ++ ":" ++ toString ordinal

structure Submission (Callback : Type) where
  callback : Callback
  key : Option RequestKey
  fingerprint : String
  units : Nat
  size : Nat
  isolated : Bool
  keys : List String
  deriving Repr

structure Settings where
  capacity : Nat := 4096
  byteCapacity : Nat := 2 ^ 24
  batchSize : Nat := 128
  hotHistory : Nat := 4096
  deriving DecidableEq, Repr

inductive SubmitError
  | value (message : String)
  | conflict (message : String)
  | busy (message : String)
  deriving DecidableEq, Repr

inductive Note (Callback : Type)
  | accepted (item : Item Callback) (key : Option String)
  | tried (items : List (Item Callback))
  | finished (item : Item Callback)

/-- On disk are both tables of tasks, the receipt files and the journal; the queue, the tasks of
this process, its flags and the configuration lock are memory. For the specification: whether the
worker has a batch, whether a write that ends it has failed, the tasks lost with a process and,
newest first, the commits, the states written and what happened. -/
structure Queue (Callback Value : Type) where
  tasks : Dict TaskId (Row Value)
  archive : Dict TaskId (Row Value)
  receipts : Dict Batch (Dict TaskId (Proof Value))
  journal : Option (Wal Value)
  pending : List (Item Callback)
  live : Dict TaskId (Item Callback)
  units : Int
  bytes : Int
  paused : Bool
  closed : Bool
  locked : Bool
  fresh : Nat
  busy : Bool
  broken : Bool
  lost : List TaskId
  committed : List Commit
  states : List (TaskId × TaskState)
  log : List (Note Callback)

variable {Callback Value Error : Type}

namespace Queue

def empty : Queue Callback Value where
  tasks := Dict.empty
  archive := Dict.empty
  receipts := Dict.empty
  journal := none
  pending := []
  live := Dict.empty
  units := 0
  bytes := 0
  paused := false
  closed := false
  locked := false
  fresh := 0
  busy := false
  broken := false
  lost := []
  committed := []
  states := []
  log := []

def row (id : TaskId) (q : Queue Callback Value) : Option (Row Value) :=
  (q.tasks.get? id).or (q.archive.get? id)

def rowOfKey (key : String) (table : Dict TaskId (Row Value)) : Option (TaskId × Row Value) :=
  table.entries.find? (fun entry => entry.2.requestKey = some key)

def known (key : Option String) (q : Queue Callback Value) : Option (TaskId × Row Value) :=
  (key.filter (· ≠ "")).bind (fun key => (rowOfKey key q.tasks).or (rowOfKey key q.archive))

def insertArchived (archive : Dict TaskId (Row Value)) (entry : TaskId × Row Value) :
    Except String (Dict TaskId (Row Value)) :=
  if entry.1 ∈ archive.keys then .error "UNIQUE constraint failed: task_archive.id"
  else if entry.2.requestKey.isSome ∧
      ∃ other ∈ archive.entries, other.2.requestKey = entry.2.requestKey then
    .error "UNIQUE constraint failed: task_archive.request_key"
  else .ok (archive.set entry.1 entry.2)

def oldest (updated : TaskId → Nat) (limit : Nat) (tasks : Dict TaskId (Row Value)) : List TaskId :=
  (((tasks.entries.filter (·.2.state.terminal)).map Prod.fst).insertionSort
    (fun a b => updated a < updated b ∨ updated a = updated b ∧ a ≤ b)).take limit

def archiveHistory (settings : Settings) (updated : TaskId → Nat) (q : Queue Callback Value) :
    Except String (Queue Callback Value) :=
  let count := (q.tasks.entries.filter (·.2.state.terminal)).length
  let hot := max 1 settings.hotHistory
  if count ≤ hot then .ok q
  else
    let ids := oldest updated (count - hot) q.tasks
    let moved := q.tasks.entries.filter (fun entry => decide (entry.1 ∈ ids))
    match moved.foldlM insertArchived q.archive with
    | .error message => .error message
    | .ok archive => .ok { q with tasks := q.tasks.filterKeys (· ∉ ids), archive := archive }

def enqueue (submission : Submission Callback) (q : Queue Callback Value) : Queue Callback Value :=
  let key := submission.key.map (·.text)
  let item : Item Callback := ⟨q.fresh, submission.callback, submission.size, submission.units,
    submission.isolated, submission.fingerprint, submission.keys⟩
  let row := ⟨key, submission.fingerprint, .queued, none, none, none, submission.units⟩
  { q with
    tasks := q.tasks.set q.fresh row
    live := q.live.set q.fresh item
    pending := q.pending ++ [item]
    units := q.units + submission.units
    bytes := q.bytes + submission.size
    fresh := q.fresh + 1
    states := (q.fresh, .queued) :: q.states
    log := .accepted item key :: q.log }

def submit (settings : Settings) (submission : Submission Callback) (q : Queue Callback Value) :
    Except SubmitError (TaskId × Bool) × Queue Callback Value :=
  if submission.units < 1 ∨ submission.size < 1 then
    (.error (.value "positive queue cost required"), q)
  else
    match q.known (submission.key.map (·.text)) with
    | some (id, row) =>
      if row.fingerprint ≠ submission.fingerprint then
        (.error (.conflict "runtime task key content conflict"), q)
      else (.ok (id, true), q)
    | none =>
      if q.closed ∨ q.paused then
        (.error (.busy "runtime writer unavailable; reconcile before new writes"), q)
      else if settings.batchSize < submission.units ∨
          settings.capacity < q.units + submission.units ∨
          settings.byteCapacity < q.bytes + submission.size then
        (.error (.busy "runtime write queue is full; retry later with the same key"), q)
      else (.ok (q.fresh, false), q.enqueue submission)

def put (id : TaskId) (state : TaskState) (f : Row Value → Row Value) (q : Queue Callback Value) :
    Queue Callback Value :=
  { q with
    tasks := q.tasks.modify id (fun row => { f row with state := state })
    states := (id, state) :: q.states }

def begin (tasks : List TaskId) (q : Queue Callback Value) : Queue Callback Value :=
  tasks.foldl (fun q' id => q'.put id .running (fun row => { row with batch := some q.fresh }))
    { q with fresh := q.fresh + 1 }

def finish (item : Item Callback) (ending : Ending Value Error) (q : Queue Callback Value) :
    Queue Callback Value :=
  { q.put item.taskId ending.state
      (fun row => { row with result := ending.result, reason := ending.reason }) with
    live := q.live.erase item.taskId
    units := q.units - item.units
    bytes := q.bytes - item.size
    log := .finished item :: q.log }

def receiptOf (id : TaskId) (row : Row Value) (q : Queue Callback Value) : Option (Proof Value) :=
  ((row.batch.bind q.receipts.get?).bind (·.get? id)).filter (·.fingerprint = row.fingerprint)

def reconcile (q : Queue Callback Value) (id : TaskId) : Queue Callback Value :=
  match q.tasks.get? id with
  | none => q
  | some row =>
    if row.state.terminal ∨ id ∈ q.live.keys then q
    else
      match q.receiptOf id row with
      | some receipt =>
        q.put id .succeeded (fun row => { row with result := some receipt.result, reason := none })
      | none =>
        if row.state = .queued then
          q.put id .cancelled (fun row =>
            { row with result := none, reason := some "WRITER_RESTARTED_BEFORE_APPLY" })
        else
          q.put id .notApplied (fun row =>
            { row with result := none, reason := some "RECONCILED_NOT_APPLIED" })

def openBatches (q : Queue Callback Value) : List Batch :=
  q.tasks.entries.filterMap (fun entry => if entry.2.state.terminal then none else entry.2.batch)

def reconcileRows (q : Queue Callback Value) : Queue Callback Value :=
  if q.journal.isSome then { q with paused := true } else q.tasks.keys.foldl reconcile q

def cleanupReceipt (q : Queue Callback Value) (batch : Batch) : Queue Callback Value :=
  if q.journal.isSome ∨ batch ∈ q.openBatches then q
  else { q with receipts := q.receipts.erase batch }

def recoverReceipts (settings : Settings) (updated : TaskId → Nat) (q : Queue Callback Value) :
    Queue Callback Value :=
  if q.journal.isSome then q.reconcileRows
  else
    match q.reconcileRows.archiveHistory settings updated with
    | .error _ => q.reconcileRows
    | .ok archived =>
      let cleaned := q.openBatches.foldl cleanupReceipt archived
      { (cleaned.receipts.keys.take 256).foldl cleanupReceipt cleaned with paused := false }

def commit (transaction : Transaction Value) (q : Queue Callback Value) : Queue Callback Value :=
  { q with
    journal := none
    receipts := q.receipts.set transaction.batch transaction.proof
    committed := ⟨transaction.batch, transaction.proof.keys, true⟩ :: q.committed }

def undo (transaction : Transaction Value) (q : Queue Callback Value) : Queue Callback Value :=
  { q with journal := none, receipts := q.receipts.erase transaction.batch }

def resolve (applied : Bool) (q : Queue Callback Value) : Queue Callback Value :=
  match q.journal with
  | none => q
  | some .other => { q with journal := none }
  | some (.batch transaction) => if applied then q.commit transaction else q.undo transaction

def tried (items : List (Item Callback)) (q : Queue Callback Value) : Queue Callback Value :=
  { q with log := .tried items :: q.log }

def crash (q : Queue Callback Value) : Queue Callback Value :=
  { q with
    pending := [], live := Dict.empty, units := 0, bytes := 0, paused := false, closed := false
    locked := false, busy := false, broken := false, lost := q.live.keys ++ q.lost }

end Queue

/-- How an operation goes. What fails without a trace has no effect, so a failed recovery finds the
transaction not applied; an uncertain write may be visible. -/
inductive Course (Error : Type)
  | proceed
  | fail (error : Error)
  | reject (index : Nat) (error : Error)
  | refuse (message : String)
  | uncertain (message : String)
  deriving DecidableEq, Repr

structure Choice (Value Error : Type) where
  course : Course Error
  value : TaskId → Value
  changed : Bool

def mutate (choice : Choice Value Error) (batch : Batch) (items : List (Item Callback))
    (q : Queue Callback Value) : Except (Failure Error) (Staged Value) × Queue Callback Value :=
  if q.journal.isSome then
    (.error (.recoveryRequired "runtime recovery required; transaction journal retained"), q)
  else
    match choice.course with
    | .reject index error =>
      if index < items.length then (.error (.batchRejected index error), q.tried items)
      else (.error (.exception error), q.tried items)
    | .fail error => (.error (.exception error), q.tried items)
    | .refuse message | .uncertain message => (.error (.recoveryRequired message), q.tried items)
    | .proceed =>
      let staged : Staged Value :=
        ⟨items.map (fun item => choice.value item.taskId), choice.changed⟩
      if choice.changed then (.ok staged, { q.tried items with locked := true })
      else (.ok staged, { q.tried items with
        committed := ⟨batch, items.map (·.taskId), false⟩ :: q.committed })

def openJournal (choice : Choice Value Error) (transaction : Transaction Value)
    (q : Queue Callback Value) : Except (Failure Error) Unit × Queue Callback Value :=
  match choice.course with
  | .proceed => (.ok (), { q with journal := some (.batch transaction) })
  | .fail error | .reject _ error => (.error (.exception error), { q with locked := false })
  | .refuse message => (.error (.recoveryRequired message), { q with locked := false })
  | .uncertain message =>
    (.error (.recoveryRequired message),
      { q with journal := some (.batch transaction), locked := false })

def settle (choice : Choice Value Error) (q : Queue Callback Value) :
    Except (Failure Error) Unit × Queue Callback Value :=
  match choice.course with
  | .proceed => (.ok (), { q.resolve true with locked := false })
  | .fail error | .reject _ error =>
    (.error (.exception error), { q.resolve false with locked := false })
  | .refuse message | .uncertain message =>
    (.error (.recoveryRequired message), { q with locked := false })

def recoverWal (choice : Choice Value Error) (q : Queue Callback Value) :
    Except (Failure Error) Unit × Queue Callback Value :=
  match choice.course with
  | .proceed => (.ok (), q.resolve true)
  | .fail _ | .reject _ _ => (.ok (), q.resolve false)
  | .refuse message | .uncertain message => (.error (.recoveryRequired message), q)

def written {α : Type} (choice : Choice Value Error) (failed : Queue Callback Value)
    (result : α × Queue Callback Value) : Except (Failure Error) α × Queue Callback Value :=
  match choice.course with
  | .fail error => (.error (.exception error), failed)
  | _ => (.ok result.1, result.2)

def respond (settings : Settings) (choice : Choice Value Error) : (op : Op Callback Value Error) →
    Queue Callback Value → Except (Failure Error) (Answer op) × Queue Callback Value
  | .checkMode, q => (.ok (match choice.course with | .proceed => true | _ => false), q)
  | .begin tasks, q => written choice q (q.fresh, q.begin tasks)
  | .mutate batch items, q => mutate choice batch items q
  | .openJournal transaction, q => openJournal choice transaction q
  | .writeRecords transaction, q =>
    written choice q ((), { q with receipts := q.receipts.set transaction.batch transaction.proof })
  | .settle _, q => settle choice q
  | .finish item ending, q => written choice { q with broken := true } ((), q.finish item ending)
  | .paused, q => (.ok q.paused, q)
  | .pause, q => (.ok (), { q with paused := true })
  | .batches tasks, q => (.ok (tasks.filterMap (fun id => (q.row id).bind (·.batch))).dedup, q)
  | .cleanupReceipt batch, q =>
    written choice { q with broken := true } ((), q.cleanupReceipt batch)
  | .listReceipts, q => (.ok q.receipts.keys, q)
  | .awake, q => (.ok (q.closed || (!q.pending.isEmpty && !q.paused)), { q with busy := false })
  | .collect, q =>
    if q.closed then (.ok none, q)
    else
      let batch := collect settings.batchSize q.pending
      (.ok (some batch.1), { q with pending := batch.2, busy := true })
  | .stop, q => (.ok (), { q with paused := true, closed := true })
  | .drain, q => (.ok q.pending, { q with closed := true, pending := [], busy := true })
  | .recoverWal, q => recoverWal choice q
  | .reconcileRows, q =>
    written choice q (if q.journal.isSome then none else some q.openBatches, q.reconcileRows)
  | .resume, q => (.ok (), { q with paused := false })

/-- Between two steps of the worker: what other threads and processes do, and its own
`archive_history` after a batch. -/
inductive Event (Callback : Type)
  | submit (submission : Submission Callback)
  | recoverReceipts (updated : TaskId → Nat)
  | archiveHistory (updated : TaskId → Nat)
  | recoverWal (applied : Bool)
  | otherJournal
  | reconcileRows
  | cleanupReceipt (batch : Batch)
  | resume
  | close

def occur (settings : Settings) : Event Callback → Queue Callback Value → Queue Callback Value
  | .submit submission, q => (q.submit settings submission).2
  | .recoverReceipts updated, q => q.recoverReceipts settings updated
  | .archiveHistory updated, q =>
    match q.archiveHistory settings updated with
    | .error _ => q
    | .ok archived => archived
  | .recoverWal applied, q => if q.locked then q else q.resolve applied
  | .otherJournal, q =>
    if q.locked ∨ q.journal.isSome then q else { q with journal := some .other }
  | .reconcileRows, q => q.reconcileRows
  | .cleanupReceipt batch, q => q.cleanupReceipt batch
  | .resume, q => { q with paused := false }
  | .close, q => { q with closed := true }

/-- What other threads do to the queue besides submitting tasks, one thing at a time. -/
inductive Upkeep (settings : Settings) : Queue Callback Value → Queue Callback Value → Prop
  | reconcile (q) (id : TaskId) (hjournal : q.journal = none) : Upkeep settings q (q.reconcile id)
  | archive (q) {q'} {updated : TaskId → Nat}
    (hok : q.archiveHistory settings updated = .ok q') : Upkeep settings q q'
  | cleanup (q) (batch : Batch) : Upkeep settings q (q.cleanupReceipt batch)
  | resolve (q) (applied : Bool) (hfree : q.locked ≠ true) : Upkeep settings q (q.resolve applied)
  | other (q) (hfree : ¬(q.locked = true ∨ q.journal.isSome = true)) :
    Upkeep settings q { q with journal := some .other }
  | flags (q) (paused : Bool) {closed : Bool} (hclosed : q.closed = true → closed = true) :
    Upkeep settings q { q with paused := paused, closed := closed }

abbrev Upkept (settings : Settings) : Queue Callback Value → Queue Callback Value → Prop :=
  ReflTransGen (Upkeep settings)

theorem journal_reconcile (q : Queue Callback Value) (id : TaskId) :
    (q.reconcile id).journal = q.journal := by
  unfold Queue.reconcile
  split
  · rfl
  split
  · rfl
  split
  · rfl
  · split <;> rfl

theorem upkept_reconcileRows (settings : Settings) (q : Queue Callback Value) :
    Upkept settings q q.reconcileRows := by
  unfold Queue.reconcileRows
  split
  · exact .single (.flags q true (fun h => h))
  next hj =>
    rw [Bool.not_eq_true, Option.isSome_eq_false_iff, Option.isNone_iff_eq_none] at hj
    exact (@Runs.foldl_invariant _ _ (fun v => Upkept settings q v ∧ v.journal = none) _ _ q
      ⟨.refl, hj⟩ (fun v id _ hv => ⟨hv.1.tail (.reconcile v id hv.2), (journal_reconcile v id).trans hv.2⟩)).1

theorem upkept_recoverReceipts (settings : Settings) (updated : TaskId → Nat)
    (q : Queue Callback Value) : Upkept settings q (q.recoverReceipts settings updated) := by
  have hclean : ∀ (batches : List Batch) {v : Queue Callback Value}, Upkept settings q v →
      Upkept settings q (batches.foldl Queue.cleanupReceipt v) := fun batches v hv =>
    Runs.foldl_invariant hv (fun v batch _ hv => hv.tail (.cleanup v batch))
  have hrows := upkept_reconcileRows settings q
  simp only [Queue.recoverReceipts]
  split
  · exact hrows
  split
  · exact hrows
  next archived hok =>
    have hcleaned := hclean q.openBatches (hrows.tail (.archive _ hok))
    have hswept := hclean
      ((q.openBatches.foldl Queue.cleanupReceipt archived).receipts.keys.take 256) hcleaned
    exact hswept.tail (.flags _ false (fun h => h))

theorem submit_cases (settings : Settings) (submission : Submission Callback)
    (q : Queue Callback Value) :
    (q.submit settings submission).2 = q ∨
      (q.submit settings submission).2 = q.enqueue submission ∧
      q.known (submission.key.map (·.text)) = none ∧
        q.closed = false ∧ q.units + submission.units ≤ settings.capacity ∧
        q.bytes + submission.size ≤ settings.byteCapacity := by
  unfold Queue.submit
  split
  · exact .inl rfl
  split
  · split
    · exact .inl rfl
    · exact .inl rfl
  next hknown =>
    split
    · exact .inl rfl
    next hopen =>
      split
      · exact .inl rfl
      next hroom =>
        push Not at hroom hopen
        exact .inr ⟨rfl, hknown, by simpa using hopen.1, hroom.2⟩

theorem occur_cases (settings : Settings) (event : Event Callback) (q : Queue Callback Value) :
    Upkept settings q (occur settings event q) ∨
    ∃ submission, occur settings event q = q.enqueue submission ∧
      q.known (submission.key.map (·.text)) = none ∧
      q.closed = false ∧ q.units + submission.units ≤ settings.capacity ∧
      q.bytes + submission.size ≤ settings.byteCapacity := by
  cases event with
  | submit submission =>
    obtain hsame | henqueued := submit_cases settings submission q
    · exact .inl (by rw [occur, hsame])
    · exact .inr ⟨submission, henqueued⟩
  | recoverReceipts updated => exact .inl (upkept_recoverReceipts settings updated q)
  | archiveHistory updated =>
    rw [occur]
    split
    · exact .inl .refl
    next hok => exact .inl (.single (.archive q hok))
  | recoverWal applied =>
    rw [occur]
    split
    · exact .inl .refl
    next hfree => exact .inl (.single (.resolve q applied hfree))
  | otherJournal =>
    rw [occur]
    split
    · exact .inl .refl
    next hfree => exact .inl (.single (.other q hfree))
  | reconcileRows => exact .inl (upkept_reconcileRows settings q)
  | cleanupReceipt batch => exact .inl (.single (.cleanup q batch))
  | resume => exact .inl (.single (.flags q false (fun h => h)))
  | close => exact .inl (.single (.flags q q.paused (fun _ => rfl)))

def queue (settings : Settings) :
    System (Queue Callback Value) (@Answer Callback Value Error) (Failure Error) where
  Choice := Choice Value Error
  Event := Event Callback
  respond := respond settings
  env := occur settings

structure Life (Callback Value Error : Type) (settings : Settings) where
  updated : TaskId → Nat
  rounds : Nat
  schedule : List (Action
    (queue settings : System (Queue Callback Value) (@Answer Callback Value Error) (Failure Error)))

def Life.stopped {settings : Settings} (life : Life Callback Value Error settings)
    (q : Queue Callback Value) : Writer Callback Value Error Unit × Queue Callback Value :=
  Runs.run (advance (queue settings)) life.schedule
    (runWorker life.rounds, q.crash.recoverReceipts settings life.updated)

/-- The writers of a node, one after the other, from an empty task table. -/
def lives {settings : Settings} (past : List (Life Callback Value Error settings)) :
    Queue Callback Value :=
  Runs.run (fun life q => (life.stopped q).2) past Queue.empty

end NodeManager.TaskQueue
