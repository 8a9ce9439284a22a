import Mathlib.Data.Prod.Lex
import NodeManager.Dictionary
import NodeManager.Text
import NodeManager.Threads

namespace NodeManager.OperationStore

open Dictionary Programs Text Threads

def identifier (value : String) : Bool :=
  value ≠ "" ∧ value = strip value ∧ value.length ≤ 512 ∧
    value.toList.all (fun c => 32 ≤ c.toNat ∧ c.toNat ≠ 127)

def positive (value : Nat) : Bool := 1 ≤ value ∧ value ≤ 2 ^ 63 - 1

structure Operation where
  operationId : String
  nodeId : String
  assetKey : String
  ownerRef : String
  action : String
  generation : Nat
  desiredVersion : Nat
  identifiers : ∀ value ∈ [operationId, nodeId, assetKey, ownerRef, action], identifier value
  numbers : positive generation ∧ positive desiredVersion
  deriving DecidableEq

abbrev Scope := String × String

def Operation.scope (operation : Operation) : Scope := (operation.nodeId, operation.assetKey)

def Operation.version (operation : Operation) : Nat ×ₗ Nat :=
  toLex (operation.generation, operation.desiredVersion)

inductive Status
  | applying
  | applied
  | rejected
  | unknown
  deriving DecidableEq, Repr

inductive Precondition
  | businessBlocked
  | ownerIdentityMismatch
  | sourceIdentityMismatch
  | ownershipVersionMismatch
  | unsupportedPolicy
  deriving DecidableEq, Repr

inductive Reason
  | staleVersion
  | versionConflict
  | readbackRequired
  | executionUncertain
  | notAppliedConfirmed
  | interruptedOrInFlight
  | precondition (reason : Precondition)
  deriving DecidableEq, Repr

structure Row (Hash : Type) where
  operation : Operation
  requestHash : Hash
  status : Status
  reason : Option Reason

structure Fence where
  generation : Nat
  desiredVersion : Nat
  operationId : String
  deriving DecidableEq

def Fence.version (fence : Fence) : Nat ×ₗ Nat := toLex (fence.generation, fence.desiredVersion)

def Operation.fence (operation : Operation) : Fence :=
  { operation with }

inductive Observed
  | applied
  | notApplied
  | unknown
  deriving DecidableEq, Repr

structure Observation (Hash : Type) where
  operationId : String
  requestHash : Hash
  generation : Nat
  desiredVersion : Nat
  status : Option Observed

structure Receipt (Hash : Type) where
  operation : Operation
  requestHash : Hash
  status : Status
  reason : Option Reason
  current : Bool
  acceptedGeneration : Nat
  acceptedVersion : Nat
  replayed : Bool := false

inductive Outcome
  | returned
  | rejected (reason : Precondition)
  | failed
  deriving DecidableEq, Repr

inductive Event (Hash : Type)
  | invoked (operation : Operation) (requestHash : Hash) (outcome : Outcome)
  | readback (operation : Operation) (requestHash : Hash) (evidence : Option (Observation Hash))

variable {Payload Hash Worker : Type}

structure Digest (Payload Hash : Type) where
  requestHash : Operation → Payload → Hash

def Digest.Separates (digest : Digest Payload Hash) : Prop :=
  ∀ o p o' p', digest.requestHash o p = digest.requestHash o' p' → o = o'

/-- `_observe`: evidence counts only if it is about this operation. A readback that raises has
none. -/
def observe [DecidableEq Hash] (operation : Operation) (requestHash : Hash)
    (evidence : Option (Observation Hash)) :
    Observed :=
  match evidence with
  | none => .unknown
  | some evidence =>
    if evidence.operationId ≠ operation.operationId ∨ evidence.requestHash ≠ requestHash ∨
        evidence.generation ≠ operation.generation ∨
        evidence.desiredVersion ≠ operation.desiredVersion then .unknown
    else evidence.status.getD .unknown

/-- The two tables, the locks of the scopes, and what was run, latest first. -/
structure Store (Hash Worker : Type) where
  rows : Dict String (Row Hash) := Dict.empty
  fences : Dict Scope Fence := Dict.empty
  holder : Scope → Option Worker := fun _ => none
  log : List (Event Hash) := []

def Store.accepted (store : Store Hash Worker) (scope : Scope) : Nat ×ₗ Nat :=
  ((store.fences.get? scope).map Fence.version).getD (toLex (0, 0))

inductive Failure
  | conflict
  | store (message : String)
  | assertion
  deriving DecidableEq, Repr

structure Decision where
  replayed : Bool
  terminal : Bool
  stale : Bool
  conflict : Bool
  deriving DecidableEq, Repr

def decision (operation : Operation) (row : Option (Row Hash)) (fence : Option Fence) :
    Decision where
  replayed := row.isSome
  terminal := row.any (fun r => r.status = .applied ∨ r.status = .rejected)
  stale := operation.version < (fence.map Fence.version).getD (toLex (0, 0))
  conflict := fence.any (fun f => operation.version = f.version ∧
    f.operationId ≠ operation.operationId)

def Store.accept [DecidableEq Hash] (operation : Operation) (requestHash : Hash)
    (store : Store Hash Worker) :
    Except Failure Decision × Store Hash Worker :=
  let row := store.rows.get? operation.operationId
  let d := decision operation row (store.fences.get? operation.scope)
  if row.any (fun r => r.requestHash ≠ requestHash) then (.error .conflict, store)
  else
    (.ok d,
      { store with
        rows := match row with
          | none =>
            store.rows.set operation.operationId
              ⟨operation, requestHash, if d.stale || d.conflict then .rejected else .applying,
                if d.stale then some .staleVersion
                else if d.conflict then some .versionConflict else none⟩
          | some r =>
            if (d.stale || d.conflict) && !d.terminal then
              store.rows.set operation.operationId { r with
                status := .rejected, reason := some .staleVersion }
            else store.rows
        fences :=
          if !d.stale && !d.conflict && !d.terminal then
            store.fences.set operation.scope operation.fence
          else store.fences })

def Store.finish (operation : Operation) (status : Status) (reason : Option Reason)
    (store : Store Hash Worker) :
    Except Failure Unit × Store Hash Worker :=
  match store.rows.get? operation.operationId with
  | none => (.error (.store "operation lost its version fence"), store)
  | some row =>
    if store.fences.get? operation.scope = some operation.fence then
      (.ok (), { store with
        rows := store.rows.set operation.operationId { row with
          status := status, reason := reason } })
    else (.error (.store "operation lost its version fence"), store)

def Store.read (operationId : String) (store : Store Hash Worker) : Option (Receipt Hash) :=
  match store.rows.get? operationId with
  | none => none
  | some row =>
    (store.fences.get? row.operation.scope).map (fun fence =>
      { operation := row.operation
        requestHash := row.requestHash
        status := if row.status = .applying then .unknown else row.status
        reason := if row.status = .applying then some .interruptedOrInFlight else row.reason
        current := fence.operationId = row.operation.operationId
        acceptedGeneration := fence.generation
        acceptedVersion := fence.desiredVersion })

inductive Op (Hash : Type)
  | lock (scope : Scope)
  | unlock (scope : Scope)
  | accept (operation : Operation) (requestHash : Hash)
  | finish (operation : Operation) (status : Status) (reason : Option Reason)
  | read (operationId : String)
  | readback (operation : Operation) (requestHash : Hash)
  | apply (operation : Operation) (requestHash : Hash)

@[reducible] def Answer : Op Hash → Type
  | .accept _ _ => Decision
  | .read _ => Option (Receipt Hash)
  | .readback _ _ => Option (Observation Hash)
  | .apply _ _ => Outcome
  | _ => Unit

abbrev Program (Hash α : Type) := Prog (@Answer Hash) Failure α

def ask (op : Op Hash) : Program Hash (Answer op) := Prog.ask op

def receipt (operation : Operation) (replayed : Bool) : Program Hash (Option (Receipt Hash)) := do
  match ← ask (.read operation.operationId) with
  | some receipt => pure (some { receipt with replayed := replayed })
  | none => Prog.raise .assertion

def record [DecidableEq Hash] (operation : Operation) (requestHash : Hash) :
    Outcome → Program Hash Unit
  | .rejected reason => ask (.finish operation .rejected (some (.precondition reason)))
  | .failed => ask (.finish operation .unknown (some .executionUncertain))
  | .returned => do
    let evidence ← ask (.readback operation requestHash)
    if observe operation requestHash evidence = .applied then ask (.finish operation .applied none)
    else ask (.finish operation .unknown (some .readbackRequired))

def invoke [DecidableEq Hash] (operation : Operation) (requestHash : Hash) (replayed : Bool) :
    Program Hash (Option (Receipt Hash)) := do
  let outcome ← ask (.apply operation requestHash)
  record operation requestHash outcome
  receipt operation replayed

def retry [DecidableEq Hash] (operation : Operation) (requestHash : Hash) :
    Program Hash (Option (Receipt Hash)) := do
  let evidence ← ask (.readback operation requestHash)
  match observe operation requestHash evidence with
  | .applied =>
    ask (.finish operation .applied none)
    receipt operation true
  | .unknown =>
    ask (.finish operation .unknown (some .readbackRequired))
    receipt operation true
  | .notApplied =>
    ask (.finish operation .applying none)
    invoke operation requestHash true

def executeLocked [DecidableEq Hash] (operation : Operation) (requestHash : Hash) :
    Program Hash (Option (Receipt Hash)) := do
  let d ← ask (.accept operation requestHash)
  if d.terminal then receipt operation true
  else if d.stale || d.conflict then receipt operation d.replayed
  else if d.replayed then retry operation requestHash
  else invoke operation requestHash false

def reconcileLocked [DecidableEq Hash] (operation : Operation) (requestHash : Hash) :
    Program Hash (Option (Receipt Hash)) := do
  match ← ask (.read operation.operationId) with
  | none => pure none
  | some receipt =>
    if receipt.requestHash ≠ requestHash then Prog.raise .conflict
    else if receipt.status = .rejected ∨ receipt.current = false then pure (some receipt)
    else
      let evidence ← ask (.readback operation requestHash)
      match observe operation requestHash evidence with
      | .applied => ask (.finish operation .applied none)
      | .notApplied => ask (.finish operation .unknown (some .notAppliedConfirmed))
      | .unknown => ask (.finish operation .unknown (some .readbackRequired))
      ask (.read operation.operationId)

def locked {α : Type} (scope : Scope) (body : Program Hash α) : Program Hash α := do
  ask (.lock scope)
  body.ensure (ask (.unlock scope))

inductive Call (Payload : Type)
  | execute (operation : Operation) (payload : Payload)
  | reconcile (operation : Operation) (payload : Payload)

def Digest.code [DecidableEq Hash] (digest : Digest Payload Hash) :
    Call Payload → Program Hash (Option (Receipt Hash))
  | .execute operation payload =>
    locked operation.scope (executeLocked operation (digest.requestHash operation payload))
  | .reconcile operation payload =>
    locked operation.scope (reconcileLocked operation (digest.requestHash operation payload))

structure Choice (Hash : Type) where
  available : Bool := true
  evidence : Option (Observation Hash) := none
  outcome : Outcome := .returned

def transaction {α : Type} (choice : Choice Hash)
    (body : Store Hash Worker → Except Failure α × Store Hash Worker) (store : Store Hash Worker) :
    Except Failure α × Store Hash Worker :=
  if choice.available then body store
  else (.error (.store "operation journal unavailable; mutation refused"), store)

def respond [DecidableEq Hash] [DecidableEq Worker] (worker : Worker) (choice : Choice Hash) :
    (op : Op Hash) → Store Hash Worker → Option (Except Failure (Answer op) × Store Hash Worker)
  | .lock scope, store =>
    match store.holder scope with
    | none =>
      some (.ok (), { store with holder := Function.update store.holder scope (some worker) })
    | some _ => none
  | .unlock scope, store =>
    some (.ok (), if store.holder scope = some worker then
      { store with holder := Function.update store.holder scope none } else store)
  | .accept operation requestHash, store =>
    some (transaction choice (Store.accept operation requestHash) store)
  | .finish operation status reason, store =>
    some (transaction choice (Store.finish operation status reason) store)
  | .read operationId, store =>
    some (transaction choice (fun store => (.ok (store.read operationId), store)) store)
  | .readback operation requestHash, store =>
    some (.ok choice.evidence,
      { store with log := .readback operation requestHash choice.evidence :: store.log })
  | .apply operation requestHash, store =>
    some (.ok choice.outcome, { store with
      log := .invoked operation requestHash choice.outcome :: store.log })

/-- A worker that dies has its locks released, and its transaction is rolled back. -/
def leave [DecidableEq Worker] (worker : Worker) (store : Store Hash Worker) : Store Hash Worker :=
  { store with
    holder := fun scope => if store.holder scope = some worker then none else store.holder scope }

def Digest.machine [DecidableEq Hash] [DecidableEq Worker] (digest : Digest Payload Hash) :
    Machine (Store Hash Worker) Worker (Call Payload) (@Answer Hash) Failure
    (Option (Receipt Hash)) where
  Choice := Choice Hash
  code := digest.code
  respond := respond
  leave := leave

end NodeManager.OperationStore
