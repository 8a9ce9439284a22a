import NodeManager.Identities
import NodeManager.Outcomes
import NodeManager.TrafficRecords

namespace NodeManager.RuntimeCounters

open Dictionary Identities Outcomes Text TrafficRecords

structure CounterKey where
  inbound : String
  user : String
  id : String
  deriving DecidableEq, Repr

def CounterKey.legacy (key : CounterKey) : CounterKey := { key with id := "" }

structure Row where
  key : CounterKey
  upload : Nat
  download : Nat
  retirable : Bool := false
  deriving DecidableEq

def Row.bytes (row : Row) : Bytes := (row.upload, row.download)

inductive Version
  | one
  | two
  deriving DecidableEq, Repr

structure Snapshot where
  instanceId : String
  counterVersion : Version
  users : List Row
  ids : ∀ row ∈ users, row.key.id = "" ↔ counterVersion = .one

structure Baseline where
  bytes : Bytes
  userId : Option String
  deriving DecidableEq

structure Counters where
  instanceId : String
  rows : Dict CounterKey Baseline := Dict.empty
  retiredInstances : List String := []
  retirementPending : Dict CounterKey Row := Dict.empty
  deriving DecidableEq

structure Store where
  users : Dict String User
  collected : Bool
  counters : Option Counters

inductive CounterError
  | retiredInstance
  | duplicate
  | ownerChanged
  | invalid
  | regression
  | overflow
  | incomplete
  deriving DecidableEq, Repr

def knownOwner (authMap historicalAliases : Dict String String) (name : String) : Option String :=
  ((authMap.get? name).filter (· ≠ "")).or ((historicalAliases.get? name).filter (· ≠ ""))

def prefixOwner (name : String) : Option String :=
  if startsWith name userPrefix ∧ dropPrefix name userPrefix ≠ "" then
    some (dropPrefix name userPrefix)
  else none

def rowOwner (authMap historicalAliases : Dict String String) (name : String)
    (previous : Option Baseline) :
    Except CounterError (Option String) :=
  let found := knownOwner authMap historicalAliases name
  match previous with
  | some b =>
    if found.isSome ∧ b.userId.isSome ∧ found ≠ b.userId then .error .ownerChanged
    else .ok (found.or b.userId)
  | none => .ok (found.or (prefixOwner name))

/-- What a row adds to its owner: the growth of the counter from one value to another. -/
structure Posting where
  instanceId : String
  key : CounterKey
  owner : Option String
  start : Bytes
  value : Bytes
  migrated : Bool
  deriving DecidableEq

def Posting.growth (posting : Posting) : Bytes := posting.value - posting.start

structure Progress where
  rows : Dict CounterKey Baseline
  pending : Dict CounterKey Row
  seen : List CounterKey := []
  users : Dict String User
  postings : List Posting := []

structure Pass where
  instanceId : String
  version : Version
  migrate : Bool
  authMap : Dict String String
  historicalAliases : Dict String String

/-- The baseline of a counter. A counter that has got an id goes on from that of its credential. -/
def Pass.previous (pass : Pass) (rows : Dict CounterKey Baseline) (key : CounterKey) :
    Option Baseline × Dict CounterKey Baseline :=
  match rows.get? key with
  | some b => (some b, rows)
  | none =>
    match pass.version with
    | .one => (none, rows)
    | .two => (rows.get? key.legacy, rows.erase key.legacy)

def credit (users : Dict String User) (owner : Option String) (growth : Bytes) :
    Except CounterError (Dict String User) :=
  match owner with
  | none => .ok users
  | some userId =>
    let user := (users.get? userId).getD {}
    let total := user.bytes + growth
    if maxBytes < max total.1 total.2 then .error .overflow
    else .ok (users.set userId (user.withBytes total))

def Pass.applyRow (pass : Pass) (s : Progress) (row : Row) : Except CounterError Progress := do
  require (row.key ∉ s.seen) .duplicate
  let (previous, rows) := pass.previous s.rows row.key
  let owner ← rowOwner pass.authMap pass.historicalAliases row.key.user previous
  require (row.upload ≤ maxBytes ∧ row.download ≤ maxBytes) .invalid
  let old := match previous with
    | some b => b.bytes
    | none => if pass.migrate then row.bytes else 0
  require (old ≤ row.bytes) .regression
  let pending := match pass.version with
    | .one => s.pending
    | .two => if row.retirable then s.pending.set row.key row else s.pending.erase row.key
  let users ← credit s.users owner (row.bytes - old)
  return {
    rows := rows.set row.key ⟨row.bytes, owner⟩
    pending := pending
    seen := row.key :: s.seen
    users := users
    postings := ⟨pass.instanceId, row.key, owner, old, row.bytes, pass.migrate⟩ :: s.postings }

/-- The counters of the reporting instance. A replaced instance is refused; in the second version it
is looked up in the history, too. -/
def currentCounters (counters : Option Counters) (retiredEpochs : List String)
    (snapshot : Snapshot) :
    Except CounterError Counters :=
  match counters with
  | none => .ok { instanceId := snapshot.instanceId }
  | some c =>
    if snapshot.instanceId = c.instanceId then .ok c
    else if snapshot.instanceId ∈ c.retiredInstances ∨
        (snapshot.counterVersion = .two ∧ snapshot.instanceId ∈ retiredEpochs) then
        .error .retiredInstance
    else .ok { instanceId := snapshot.instanceId, retiredInstances := c.retiredInstances ++
      [c.instanceId] }

def migrates (store : Store) : Bool :=
  store.counters.isNone && (store.collected ||
    store.users.entries.any (fun e => e.2.upload + e.2.download ≠ 0))

def applyRows (store : Store) (c : Counters) (snapshot : Snapshot)
    (authMap historicalAliases : Dict String String) :
    Except CounterError (Store × List Posting) := do
  let pass : Pass :=
    ⟨snapshot.instanceId, snapshot.counterVersion, migrates store, authMap, historicalAliases⟩
  let s ← snapshot.users.foldlM pass.applyRow
    { rows := c.rows, pending := c.retirementPending, users := store.users }
  require (∀ key ∈ s.rows.keys, key ∈ s.seen) .incomplete
  return ({ store with
    users := s.users
    counters := some { c with rows := s.rows, retirementPending := s.pending } }, s.postings)

/-- `apply_counters`. Retired instances move to the history even if a row is refused later. -/
def applyCounters (store : Store) (retiredEpochs : List String) (snapshot : Snapshot)
    (authMap historicalAliases : Dict String String) :
    Except CounterError (Store × List Posting) × List String :=
  match currentCounters store.counters retiredEpochs snapshot with
  | .error e => (.error e, retiredEpochs)
  | .ok c =>
    if snapshot.counterVersion = .two then
      (applyRows store { c with retiredInstances := [] } snapshot authMap historicalAliases,
        c.retiredInstances ++ retiredEpochs)
    else (applyRows store c snapshot authMap historicalAliases, retiredEpochs)

end NodeManager.RuntimeCounters
