import NodeManager.Retention
import NodeManager.Threads

namespace NodeManager.IdempotencyStore

open Dictionary Programs Retention Threads

structure Entry (Result : Type) where
  fingerprint : String
  createdAt : Nat
  response : Option Result
  deriving DecidableEq

inductive Conflict
  | differentRequest
  | unreadableResponse
  deriving DecidableEq, Repr

inductive Failure
  | conflict (conflict : Conflict)
  | callback (message : String)
  deriving DecidableEq, Repr

structure Identity where
  key : String
  fingerprint : String
  deriving DecidableEq

abbrev Outcome (Result : Type) := Except Failure (Result × Bool)

inductive Event (Result : Type)
  | completed (fingerprint : String) (result : Result)
  | stored
  | left (fingerprint : String) (outcome : Outcome Result)
  deriving DecidableEq

/-- The requests of the callers, and with which operations they call each of the two functions. -/
structure Site (Payload Slot : Type) where
  limits : Limits
  slot : String → Slot
  fingerprint : String → Payload → String
  idempotent : String → Bool
  reconciling : String → Bool

structure Site.Sound {Payload Slot : Type} (site : Site Payload Slot) : Prop where
  /-- The digest separates requests. -/
  separates : ∀ {o p o' p'}, site.fingerprint o p = site.fingerprint o' p' → o = o' ∧ p = p'
  /-- No operation is used with both functions. -/
  apart : ∀ operation, site.idempotent operation = true → site.reconciling operation = false

variable {Payload Slot Result Worker α : Type}

/-- The file, the locks, the clock and, latest first, what happened to each key. -/
structure World (Slot Result Worker : Type) where
  file : Dict String (Entry Result) := Dict.empty
  requestHolder : Slot → Option Worker := fun _ => none
  storeHolder : Option Worker := none
  clock : Nat := 0
  log : String → List (Event Result) := fun _ => []

/-- `leaveRequest` is the end of `with _request_lock(key)`, and `writeStore` is told which key has
the new receipt. -/
inductive Op (Result : Type)
  | lockRequest (key : String)
  | leaveRequest (key fingerprint : String) (outcome : Outcome Result)
  | lockStore
  | unlockStore
  | readStore
  | time
  | callback (identity : Option Identity)
  | writeStore (key : String) (entries : Dict String (Entry Result))

@[reducible] def Answer : Op Result → Type
  | .readStore => Dict String (Entry Result)
  | .time => Nat
  | .callback _ => Result
  | _ => Unit

abbrev Program (Result α : Type) := Prog (@Answer Result) Failure α

def ask (op : Op Result) : Program Result (Answer op) := Prog.ask op

def withStore (body : Program Result α) : Program Result α := do
  ask .lockStore
  body.ensure (ask .unlockStore)

def withRequest (key fingerprint : String) (body : Program Result (Result × Bool)) :
    Program Result (Result × Bool) := do
  ask (.lockRequest key)
  let outcome ← body.attempt
  ask (.leaveRequest key fingerprint outcome)
  Prog.ofExcept outcome

def currentEntries (limits : Limits) : Program Result (Dict String (Entry Result) × Nat) := do
  let entries ← ask .readStore
  let now ← ask .time
  pure (prune Entry.createdAt limits now entries, now)

def findResponse (limits : Limits) (key fingerprint : String) : Program Result (Option Result) :=
  withStore do
    let (entries, _) ← currentEntries limits
    match entries.get? key with
    | none => pure none
    | some existing =>
      if existing.fingerprint ≠ fingerprint then Prog.raise (.conflict .differentRequest)
      else
        match existing.response with
        | some response => pure (some response)
        | none => Prog.raise (.conflict .unreadableResponse)

def storeResponse (limits : Limits) (key fingerprint : String) (result : Result) :
    Program Result Unit :=
  withStore do
    let (entries, now) ← currentEntries limits
    ask (.writeStore key (entries.set key ⟨fingerprint, now, some result⟩))

def executeIdempotent (limits : Limits) (key : Option String) (fingerprint : String) :
    Program Result (Result × Bool) :=
  match key.filter (· ≠ "") with
  | none => do
    let result ← ask (.callback none)
    pure (result, false)
  | some key =>
    withRequest key fingerprint do
      match ← findResponse limits key fingerprint with
      | some response => pure (response, true)
      | none =>
        let result ← ask (.callback (some ⟨key, fingerprint⟩))
        storeResponse limits key fingerprint result
        pure (result, false)

def findBinding (limits : Limits) (key fingerprint : String) : Program Result Bool :=
  withStore do
    let (entries, _) ← currentEntries limits
    if (entries.get? key).any (fun existing => existing.fingerprint ≠ fingerprint) then
      Prog.raise (.conflict .differentRequest)
    else pure (entries.get? key).isSome

def storeBinding (limits : Limits) (key fingerprint : String) : Program Result Unit :=
  withStore do
    let (entries, now) ← currentEntries limits
    if (entries.get? key).any (fun existing => existing.fingerprint ≠ fingerprint) then
      Prog.raise (.conflict .differentRequest)
    else ask (.writeStore key (entries.set key ⟨fingerprint, now, none⟩))

def executeReconcilingIdempotent (limits : Limits) (key fingerprint : String) :
    Program Result (Result × Bool) :=
  withRequest key fingerprint do
    let replayed ← findBinding limits key fingerprint
    let result ← ask (.callback none)
    storeBinding limits key fingerprint
    pure (result, replayed)

inductive Call (site : Site Payload Slot)
  | idempotent (key : Option String) (operation : String) (payload : Payload)
      (h : site.idempotent operation = true)
  | reconciling (key operation : String) (payload : Payload) (h : site.reconciling operation = true)

def Site.code (site : Site Payload Slot) : Call site → Program Result (Result × Bool)
  | .idempotent key operation payload _ =>
    executeIdempotent site.limits key (site.fingerprint operation payload)
  | .reconciling key operation payload _ =>
    executeReconcilingIdempotent site.limits key (site.fingerprint operation payload)

structure Choice (Result : Type) where
  callback : Except String Result
  elapsed : Nat := 0
  readable : Bool := true

variable [DecidableEq Slot]

/-- With `faults` a read of the file can fail, and `_read_store` then answers with an empty
store. -/
def Site.respond (site : Site Payload Slot) (faults : Bool) (worker : Worker)
    (choice : Choice Result) :
    (op : Op Result) → World Slot Result Worker →
    Option (Except Failure (Answer op) × World Slot Result Worker)
  | .lockRequest key, w =>
    match w.requestHolder (site.slot key) with
    | none =>
      some (.ok (), { w with
        requestHolder := Function.update w.requestHolder (site.slot key) (some worker) })
    | some _ => none
  | .leaveRequest key fingerprint outcome, w =>
    some (.ok (), { w with
      requestHolder := Function.update w.requestHolder (site.slot key) none
      log := Function.update w.log key (.left fingerprint outcome :: w.log key) })
  | .lockStore, w =>
    match w.storeHolder with
    | none => some (.ok (), { w with storeHolder := some worker })
    | some _ => none
  | .unlockStore, w => some (.ok (), { w with storeHolder := none })
  | .readStore, w => some (.ok (if faults && !choice.readable then Dict.empty else w.file), w)
  | .time, w => some (.ok (w.clock + choice.elapsed), { w with clock := w.clock + choice.elapsed })
  | .callback identity, w =>
    match choice.callback with
    | .error message => some (.error (.callback message), w)
    | .ok result =>
      some (.ok result,
        match identity with
        | none => w
        | some i =>
          { w with
            log := Function.update w.log i.key (.completed i.fingerprint result :: w.log i.key) })
  | .writeStore key entries, w =>
    some (.ok (), { w with
      file := entries, log := Function.update w.log key (.stored :: w.log key) })

def Site.machine (site : Site Payload Slot) (faults : Bool) :
    Machine (World Slot Result Worker) Worker (Call site) (@Answer Result) Failure
    (Result × Bool) where
  Choice := Choice Result
  code := site.code
  respond := site.respond faults
  leave _ w := w

end NodeManager.IdempotencyStore
