import NodeManager.Outcomes
import NodeManager.Text
import NodeManager.TrafficRecords

namespace NodeManager.SharedQuota

open Dictionary Outcomes Text TrafficRecords

inductive QuotaError
  | legacyReplicatedTraffic
  | invalidTrafficOrigins
  | resetReconciliationRequired
  | localTrafficHistory
  | originCycleMismatch
  | sourceResetRequired
  | invalidObservationTime
  | staleObservation
  | invalidSourceNode
  | invalidBatchSize
  | duplicateTarget
  | userNotFound
  | identityUnavailable
  | identityMismatch
  | limitMismatch
  | invalidNativeCounter
  | targetResetChanged
  | invalidStoredEvidence
  | invalidSourceEpoch
  | sourceUserChanged
  | identityChanged
  | counterRollback
  | sourceResetNotAdvanced
  | cycleMismatch
  deriving DecidableEq, Repr

/-- A point in time as Python reads it from ISO text, with or without a time zone. -/
inductive Stamp
  | naive (t : Int)
  | aware (t : Int)
  deriving DecidableEq, Repr

def Stamp.later : Stamp → Stamp → Bool
  | .naive a, .naive b => b < a
  | .aware a, .aware b => b < a
  | _, _ => false

def epoch (user : User) : Epoch where
  cycleStart := .ofOption user.lastTrafficCycleStart
  manualResetAt := .ofOption user.lastManualTrafficResetAt
  renewalResetKey := .ofOption user.lastRenewalResetKey
  version := .value user.sharedQuotaResetVersion

def number (field : TrafficRecords.Field Int) : Int := field.get.getD 0

def text (field : TrafficRecords.Field String) : String := field.get.getD ""

def sameCycle (a b : Epoch) : Bool :=
  number a.cycleStart = number b.cycleStart ∧ number a.manualResetAt = number b.manualResetAt ∧
    text a.renewalResetKey = text b.renewalResetKey

section Advance

variable (iso : String → Option Stamp)

def renewed (old new : Option String) : Bool :=
  match new with
  | none => false
  | some new =>
    if new = "" then false
    else
      match old with
      | none => true
      | some old =>
        if old = "" then true
        else
          match iso new, iso old with
          | some a, some b => a.later b
          | _, _ => false

def advanced (a b : Epoch) : Bool :=
  if number b.cycleStart < number a.cycleStart then false
  else if number a.cycleStart < number b.cycleStart then true
  else if a.renewalResetKey.get ≠ b.renewalResetKey.get then
    renewed iso a.renewalResetKey.get b.renewalResetKey.get
  else if number b.manualResetAt < number a.manualResetAt ∨
    number b.version < number a.version then false
  else number a.manualResetAt ≠ number b.manualResetAt ∨ number a.version ≠ number b.version

end Advance

def nativeAccountingProven (user : User) : Bool :=
  !(user.replicationCycle.any (· ≠ "") && user.nativeAccountingVersion ≠ some 2 &&
    user.upload + user.download ≠ 0)

def validNumber (field : TrafficRecords.Field Int) : Bool := field.get.all (0 ≤ ·)

def validEpoch (e : Epoch) : Bool :=
  validNumber e.cycleStart && validNumber e.manualResetAt && validNumber e.version &&
    e.renewalResetKey.get.all (·.length ≤ 128)

def validOrigin (source : String) (record : Origin) : Bool :=
  strip source ≠ "" && source.length ≤ 128 && record.upload ≤ maxBytes &&
    record.download ≤ maxBytes && validEpoch record.epoch

def validOrigins (origins : Dict String Origin) : Bool :=
  origins.entries.length ≤ 8 && origins.entries.all (fun e => validOrigin e.1 e.2)

def validateOrigins (origins : Dict String Origin) : Except QuotaError Unit :=
  require (validOrigins origins) .invalidTrafficOrigins

def Origin.total (record : Origin) : Nat := record.upload + record.download

section Records

variable (iso : String → Option Stamp)

def mergeOrigin (previous : Option Origin) (incoming : Origin) : Origin :=
  match previous with
  | none => incoming
  | some previous =>
    if previous.epoch ≠ incoming.epoch then
      if advanced iso previous.epoch incoming.epoch then incoming else previous
    else if Origin.total previous < Origin.total incoming then incoming else previous

def retire (user : User) : Dict String Epoch :=
  user.sharedQuotaEvidence.entries.foldl (fun retired e => retired.set e.1 e.2.sourceEpoch)
    (user.replicatedTrafficOrigins.entries.foldl (fun retired e => retired.set e.1 e.2.epoch)
      user.sharedQuotaRetiredSources)

def clearForReset (user : User) : Except QuotaError User := do
  validateOrigins user.replicatedTrafficOrigins
  return { user with
    sharedQuotaRetiredSources := retire user
    sharedQuotaEvidence := Dict.empty
    replicatedTrafficOrigins := Dict.empty
    nativeAccountingVersion := some 2
    sharedQuotaResetVersion := user.sharedQuotaResetVersion + 1 }

def evidenceOrigin (record : Evidence) : Origin := ⟨record.nativeTotalBytes, 0, record.sourceEpoch⟩

def exportOrigins (user : User) (localNode : String) : Except QuotaError (Dict String Origin) := do
  require (nativeAccountingProven user) .legacyReplicatedTraffic
  validateOrigins user.replicatedTrafficOrigins
  let result := user.sharedQuotaEvidence.entries.foldl (fun (result : Dict String Origin) e =>
    if e.2.targetEpoch ≠ epoch user then result
    else result.set e.1 (mergeOrigin iso (result.get? e.1) (evidenceOrigin e.2)))
      user.replicatedTrafficOrigins
  let native : Origin := ⟨user.upload, user.download, epoch user⟩
  let result := if user.upload ≠ 0 ∨ user.download ≠ 0 ∨ user.sharedQuotaResetVersion ≠ 0 then
    result.set localNode native else result.erase localNode
  validateOrigins result
  return result

def adopt (user : User) (incoming : Epoch) (cycleStart : Option Int) : User :=
  { user with
    lastTrafficCycleStart := cycleStart.or user.lastTrafficCycleStart
    lastManualTrafficResetAt := incoming.manualResetAt.get.or user.lastManualTrafficResetAt
    lastRenewalResetKey := incoming.renewalResetKey.get.or user.lastRenewalResetKey }

def blank (user : User) : Bool :=
  user.upload + user.download = 0 && user.replicatedTrafficOrigins.entries.isEmpty &&
    user.sharedQuotaEvidence.entries.isEmpty && number (epoch user).cycleStart = 0 &&
    number (epoch user).manualResetAt = 0 && text (epoch user).renewalResetKey = ""

def readmitted (retired : Option Epoch) (incoming : Epoch) : Bool :=
  retired.all (fun e => e ≠ incoming && advanced iso e incoming)

def importOrigin (localNode : String) (user : User) (entry : String × Origin) :
    Except QuotaError User := do
  let (source, record) := entry
  if source = localNode then
    require (Origin.total record ≤ user.upload + user.download) .localTrafficHistory
    return user
  else
    require (sameCycle (epoch user) record.epoch) .originCycleMismatch
    require (readmitted iso (user.sharedQuotaRetiredSources.get? source) record.epoch)
      .sourceResetRequired
    return { user with
      replicatedTrafficOrigins := user.replicatedTrafficOrigins.set source
        (mergeOrigin iso (user.replicatedTrafficOrigins.get? source) record) }

def incomingEpoch (cycleStart : Option Int) (manualResetAt : Int)
    (sourceEpoch : Option Epoch) : Epoch :=
  sourceEpoch.getD ⟨.ofOption cycleStart, .value manualResetAt, .missing, .missing⟩

def importable (user : User) (origins : Dict String Origin) (incoming : Epoch) :
    Except QuotaError Unit := do
  require (nativeAccountingProven user) .legacyReplicatedTraffic
  validateOrigins origins
  require (validEpoch incoming) .invalidTrafficOrigins
  require (sameCycle (epoch user) incoming || blank user) .resetReconciliationRequired

def importEach (localNode : String) :
    User → List (String × Origin) → User × Except QuotaError Unit
  | user, [] => (user, .ok ())
  | user, entry :: entries =>
    match importOrigin iso localNode user entry with
    | .error e => (user, .error e)
    | .ok user => importEach localNode user entries

/-- `import_origins` changes the record in place, and may raise when it has. -/
def importOrigins (user : User) (origins : Dict String Origin) (localNode : String)
    (cycleStart : Option Int) (manualResetAt : Int) (sourceEpoch : Option Epoch) :
    User × Except QuotaError Unit :=
  let incoming := incomingEpoch cycleStart manualResetAt sourceEpoch
  match importable user origins incoming with
  | .error e => (user, .error e)
  | .ok () =>
    let user := if sameCycle (epoch user) incoming then user else adopt user incoming cycleStart
    match importEach iso localNode user origins.entries with
    | (user, .error e) => (user, .error e)
    | (user, .ok ()) =>
      match validateOrigins user.replicatedTrafficOrigins with
      | .error e => (user, .error e)
      | .ok () => ({ user with nativeAccountingVersion := some 2 }, .ok ())

def peerOrigins (user : User) (limit : Option Nat) : Dict String Origin :=
  user.sharedQuotaEvidence.entries.foldl (fun (origins : Dict String Origin) e =>
    if e.2.targetEpoch ≠ epoch user ∨ some e.2.limitBytes ≠ limit then origins
    else origins.set e.1 (mergeOrigin iso (origins.get? e.1) (evidenceOrigin e.2)))
    ⟨user.replicatedTrafficOrigins.entries.filter (fun e => sameCycle (epoch user) e.2.epoch),
      user.replicatedTrafficOrigins.nodup.sublist (List.filter_sublist.map _)⟩

def peerUsedBytes (user : User) (limit : Option Nat) : Nat :=
  min maxBytes ((peerOrigins iso user limit).entries.map (fun e => Origin.total e.2)).sum

end Records

structure Account where
  identityDigest : Option String
  trafficLimitBytes : Option Nat

def Account.identity (account : Account) : Except QuotaError String :=
  match account.identityDigest with
  | some identity => .ok identity
  | none => .error .identityUnavailable

structure Observation where
  userId : String
  identityDigest : String
  limitBytes : Nat
  nativeTotalBytes : Nat
  epoch : Epoch
  epochToken : Epoch

structure Update where
  targetUserId : String
  source : Observation
  expectedTargetEpoch : Epoch

section Observations

variable (iso : String → Option Stamp)

def checkPrevious (previous : Option Evidence) (identity : String) (source : Observation) :
    Except QuotaError Unit :=
  match previous with
  | none => .ok ()
  | some previous => do
    require (previous.sourceUserId = source.userId) .sourceUserChanged
    require (previous.identityDigest = identity) .identityChanged
    if previous.sourceEpoch = source.epoch then
      require (previous.nativeTotalBytes ≤ source.nativeTotalBytes) .counterRollback
    else require (advanced iso previous.sourceEpoch source.epoch) .sourceResetNotAdvanced

def observe (user : User) (account : Account) (sourceNode observedAt : String) (item : Update) :
    Except QuotaError User := do
  let source := item.source
  let identity ← account.identity
  require (identity = source.identityDigest) .identityMismatch
  require (account.trafficLimitBytes.any (0 < ·) ∧
    account.trafficLimitBytes = some source.limitBytes) .limitMismatch
  require (source.nativeTotalBytes ≤ maxBytes) .invalidNativeCounter
  require (nativeAccountingProven user) .legacyReplicatedTraffic
  require (epoch user = item.expectedTargetEpoch) .targetResetChanged
  let records := user.sharedQuotaEvidence
  require (sourceNode ∈ records.keys ∨ records.entries.length < 8) .invalidStoredEvidence
  let previous := records.get? sourceNode
  require (source.epoch = source.epochToken) .invalidSourceEpoch
  require (readmitted iso (user.sharedQuotaRetiredSources.get? sourceNode) source.epoch)
    .sourceResetRequired
  checkPrevious iso previous identity source
  if sameCycle (epoch user) source.epoch then
    let record : Evidence :=
      ⟨source.userId, identity, source.limitBytes, source.nativeTotalBytes, source.epoch,
        epoch user, observedAt⟩
    return { user with sharedQuotaEvidence := records.set sourceNode record }
  else
    match previous with
    | some previous =>
      require (previous.sourceEpoch ≠ source.epoch) .cycleMismatch
      return { user with
        sharedQuotaRetiredSources := user.sharedQuotaRetiredSources.set sourceNode
          previous.sourceEpoch
        sharedQuotaEvidence := records.erase sourceNode }
    | none => .error .cycleMismatch

def applyObservation (users : Dict String User) (accounts : Dict String Account)
    (localNode sourceNode : String) (observedAt : String) (age : Option Int)
    (updates : List Update) : Except QuotaError (Dict String User) := do
  require age.isSome .invalidObservationTime
  require (age.all (fun a => -15 ≤ a ∧ a ≤ 120)) .staleObservation
  require (sourceNode ≠ "" ∧ sourceNode ≠ localNode) .invalidSourceNode
  require (updates ≠ [] ∧ updates.length ≤ 50) .invalidBatchSize
  require (updates.map Update.targetUserId).Nodup .duplicateTarget
  updates.foldlM (fun users item => do
    match accounts.get? item.targetUserId with
    | none => .error .userNotFound
    | some account =>
      let user := (users.get? item.targetUserId).getD {}
      let user ← observe iso user account sourceNode observedAt item
      return users.set item.targetUserId user) users

end Observations

end NodeManager.SharedQuota
