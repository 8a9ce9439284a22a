import NodeManager.RuntimeCounters
import NodeManager.SharedQuota

namespace NodeManager.TrafficCollection

open Dictionary Identities Outcomes RuntimeCounters Text TrafficRecords

/-- A connection of the core, with its auth names in the order of trial. An id that is no text is
`none`. -/
structure Connection where
  id : Option String
  chains : List String
  authNames : List String
  upload : Nat
  download : Nat

def Connection.bytes (connection : Connection) : Bytes := (connection.upload, connection.download)

def connectionUserId (authMap : Dict String String) (connection : Connection) : Option String :=
  match connection.chains.find? (startsWith · userOutboundPrefix) with
  | some chain => some (dropPrefix chain userOutboundPrefix)
  | none =>
    connection.authNames.findSome? (fun name =>
      (authMap.get? name).or (if startsWith name userPrefix then
        some (dropPrefix name userPrefix) else none))

structure Active where
  userId : String
  bytes : Bytes
  deriving DecidableEq

structure TrafficStore extends Store where
  connections : Dict String Active

inductive CollectError
  | connectionId
  | connectionCounter
  | connectionReset
  | modeChanged
  | counters (error : CounterError)
  deriving DecidableEq, Repr

structure Sampled where
  users : Dict String User
  active : Dict String Active := Dict.empty

def sampleConnection (runtimeMode : Bool) (authMap : Dict String String)
    (previous : Dict String Active) (s : Sampled) (connection : Connection) :
    Except CollectError Sampled :=
  match (connectionUserId authMap connection).filter (· ≠ "") with
  | none => .ok s
  | some userId =>
    if connection.id = some "" then .ok s
    else
      match connection.id with
      | none => .error .connectionId
      | some id => do
        require (id ∉ s.active.keys) .connectionId
        require (connection.upload ≤ maxBytes ∧ connection.download ≤ maxBytes) .connectionCounter
        require ((previous.get? id).all (fun p => p.userId = userId ∧ p.bytes ≤ connection.bytes))
          .connectionReset
        let old := ((previous.get? id).map Active.bytes).getD 0
        let user := (s.users.get? userId).getD {}
        let user := if runtimeMode then user
          else user.withBytes (user.bytes + (connection.bytes - old))
        return ⟨s.users.set userId user, s.active.set id ⟨userId, connection.bytes⟩⟩

def sampleConnections (runtimeMode : Bool) (authMap : Dict String String)
    (previous : Dict String Active) (users : Dict String User) (connections : List Connection) :
    Except CollectError Sampled :=
  connections.foldlM (sampleConnection runtimeMode authMap previous) { users := users }

structure Attributed (authMap : Dict String String) (connection : Connection)
    (userId id : String) : Prop where
  user : (connectionUserId authMap connection).filter (· ≠ "") = some userId
  listed : connection.id = some id
  named : id ≠ ""

structure Added (runtimeMode : Bool) (previous : Dict String Active) (s : Sampled)
    (connection : Connection) (userId id : String) (s' : Sampled) : Prop where
  fresh : id ∉ s.active.keys
  bounded : connection.upload ≤ maxBytes ∧ connection.download ≤ maxBytes
  continued : ∀ p, previous.get? id = some p → p.userId = userId ∧ p.bytes ≤ connection.bytes
  users : s'.users = s.users.set userId (if runtimeMode then (s.users.get? userId).getD {}
    else ((s.users.get? userId).getD {}).withBytes (((s.users.get? userId).getD {}).bytes +
      (connection.bytes - ((previous.get? id).map Active.bytes).getD 0)))
  active : s'.active = s.active.set id ⟨userId, connection.bytes⟩

theorem sampleConnection_ok {runtimeMode : Bool} {authMap : Dict String String}
    {previous : Dict String Active} {s s' : Sampled} {connection : Connection}
    (h : sampleConnection runtimeMode authMap previous s connection = .ok s') :
    ((∀ userId id, ¬ Attributed authMap connection userId id) ∧ s' = s) ∨
      ∃ userId id, Attributed authMap connection userId id ∧
      Added runtimeMode previous s connection userId id s' := by
  unfold sampleConnection at h
  split at h
  next hnone =>
    cases h
    refine .inl ⟨fun userId id hattr => ?_, rfl⟩
    cases hattr.user.symm.trans hnone
  next userId huser =>
    split at h
    next hempty =>
      cases h
      refine .inl ⟨fun userId id hattr => ?_, rfl⟩
      rw [hattr.listed, Option.some.injEq] at hempty
      exact hattr.named hempty
    next hnonempty =>
      split at h
      · cases h
      next id hid =>
        obtain ⟨_, hfresh, h⟩ := bind_eq_ok h
        obtain ⟨_, hbounded, h⟩ := bind_eq_ok h
        obtain ⟨_, hcontinued, h⟩ := bind_eq_ok h
        cases h
        refine .inr ⟨userId, id, ⟨huser, hid, fun heq => hnonempty (heq ▸ hid)⟩, ?_⟩
        refine ⟨of_require hfresh, of_require hbounded, fun p hp => ?_, rfl, rfl⟩
        simpa [hp] using of_require hcontinued

def withRecords (users : Dict String User) (userIds : List String) : Dict String User :=
  userIds.foldl (fun users u => users.setDefault u {}) users

/-- What a pass is given: the counters of the core, its connections if listed, and what is known of
the users. -/
structure Sample where
  native : Snapshot
  connections : Option (List Connection)
  authMap : Dict String String
  aliases : Dict String String
  policies : List String

def Sample.authUsers (sample : Sample) : List String := sample.authMap.entries.map Prod.snd

structure History where
  usage : Dict String User := Dict.empty
  totals : Int × Int := 0
  retiredEpochs : List String := []

def signed (bytes : Bytes) : Int × Int := (bytes.1, bytes.2)

def archiveUsage (values : Dict String User) (history : History) : History :=
  values.entries.foldl (fun history e =>
    { history with
      totals := history.totals + (signed e.2.bytes - signed (bytesOf history.usage e.1))
      usage := history.usage.set e.1 e.2 }) history

def Sample.wanted (sample : Sample) : List String :=
  sample.native.users.filterMap (fun row =>
    knownOwner sample.authMap sample.aliases row.key.user) ++ sample.authUsers ++
    if sample.connections.isSome then sample.policies else []

def loadUsage (usage : Dict String User) (userIds : List String) (users : Dict String User) :
    Dict String User :=
  userIds.foldl (fun users u =>
    match users.get? u, usage.get? u with
    | none, some record => users.set u record
    | _, _ => users) users

def retained (store : TrafficStore) : List String :=
  (store.counters.map (fun c => c.rows.entries.filterMap (fun e => e.2.userId))).getD [] ++
    store.connections.entries.map (fun e => e.2.userId)

def cold (store : TrafficStore) (activeIds : List String) : Dict String User :=
  store.users.filterKeys (fun u => u ∉ activeIds ∧ u ∉ retained store)

def archiveInactive (store : TrafficStore) (history : History) (activeIds : List String) :
    TrafficStore × History :=
  ({ store with users := store.users.filterKeys (fun u => ¬ (u ∉ activeIds ∧ u ∉ retained store)) },
    archiveUsage (cold store activeIds) history)

structure Collected where
  store : TrafficStore
  postings : List Posting
  activeIds : List String

def collectConnections (sample : Sample) (store : TrafficStore) (postings : List Posting) :
    Except CollectError Collected :=
  match sample.connections with
  | none => .ok ⟨{ store with collected := true }, postings, sample.authUsers⟩
  | some connections => do
    let s ← sampleConnections true sample.authMap store.connections store.users connections
    let users := withRecords s.users (sample.policies ++ s.active.entries.map (fun e => e.2.userId))
    return ⟨{ store with users := users, connections := s.active, collected := true }, postings,
      sample.authUsers ++ sample.policies⟩

def collectRuntime (store : TrafficStore) (history : History) (sample : Sample) :
    Except CollectError Collected × List String :=
  let loaded : Store := { store.toStore with
    users := loadUsage history.usage sample.wanted store.users }
  let (result, retiredEpochs) :=
    applyCounters loaded history.retiredEpochs sample.native sample.authMap sample.aliases
  (match result with
    | .error e => .error (.counters e)
    | .ok (applied, postings) =>
      collectConnections sample { store with toStore := applied } postings, retiredEpochs)

def collectSampled (store : TrafficStore) (sample : Sample) : Except CollectError TrafficStore :=
  match sample.connections with
  | none => .ok store
  | some connections => do
    require store.counters.isNone .modeChanged
    let s ← sampleConnections false sample.authMap store.connections store.users connections
    let users := withRecords s.users (sample.policies ++ s.active.entries.map (fun e => e.2.userId))
    return { store with users := users, connections := s.active, collected := true }

def deleteUserTraffic (userId : String) (store : TrafficStore) (history : History) :
    TrafficStore × History :=
  ({ store with
      users := store.users.erase userId
      connections := ⟨store.connections.entries.filter (fun e => e.2.userId ≠ userId),
        store.connections.nodup.sublist (List.filter_sublist.map _)⟩ },
    match store.users.get? userId with
    | some user => archiveUsage ⟨[(userId, user)], List.nodup_singleton userId⟩ history
    | none => history)

def trafficTotals (store : TrafficStore) (history : History) : Int × Int :=
  let live := (store.users.entries.map (fun e => signed e.2.bytes)).sum
  if store.counters.isSome then
    live + (history.totals - (store.users.keys.map (fun u => signed (bytesOf history.usage u))).sum)
  else live

end NodeManager.TrafficCollection
