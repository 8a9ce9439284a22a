import NodeManager.Identities
import NodeManager.Occurrences
import NodeManager.Outcomes

namespace NodeManager.DenyRules

open Text Dictionary Singbox Identities Occurrences Outcomes

def normalized (raw : List String) : List String := sorted (raw.filter (· ≠ ""))

def day : Int := 24 * 60 * 60 * 1000000

def second : Nat := 1000000

def restoreWindow : Int := day

def removeExpirationRule (rules : List Rule) (metadata : Metadata) : List Rule × Metadata :=
  (match metadata.expirationAuthUsers with
    | none | some [] => rules
    | some raw => rules.erase (.reject (normalized raw)),
   { metadata with expirationAuthUsers := none, expirationBlocked := false })

def removeAccessRule (rules : List Rule) (metadata : Metadata) : List Rule × Metadata :=
  (match metadata.accessBlockedAuthUsers with
    | none | some [] => rules
    | some raw => if metadata.accessBlocked then rules.erase (.reject (normalized raw)) else rules,
   { metadata with accessBlockedAuthUsers := none, accessBlocked := false })

def store (s : Node) (userId : String) (rules : List Rule) (metadata : Metadata) : Node :=
  { s with rules := rules, users := s.users.modify userId (fun _ => metadata) }

def allowAccess (userId : String) (s : Node) : Node :=
  let (rules, metadata) := removeAccessRule s.rules (registryUser s.users userId)
  store s userId rules { metadata with accessEnabled := some true }

def denyAccess (userId : String) (s : Node) : Node :=
  let metadata := registryUser s.users userId
  let authUsers := sortedSet (userAuthNames s.users userId)
  let expected := Rule.reject authUsers
  if metadata.accessBlocked = true ∧ metadata.accessBlockedAuthUsers = some authUsers ∧
    expected ∈ s.rules then
    store s userId s.rules { metadata with accessEnabled := some false }
  else
    let (rules, metadata) := removeAccessRule s.rules metadata
    store s userId (expected :: rules)
      { metadata with
        accessBlockedAuthUsers := some authUsers, accessBlocked := true, accessEnabled :=
        some false }

def setUserAccess (userId : String) (enabled : Bool) (s : Node) : Except String Node :=
  if userExists s.inbounds s.users userId = false then .error ("user not found: " ++ userId)
  else .ok (if enabled then allowAccess userId s else denyAccess userId s)

def addExpirationRule (userId : String) (s : Node) : Node :=
  let metadata := registryUser s.users userId
  let authUsers := sortedSet (userAuthNames s.users userId)
  let expected := Rule.reject authUsers
  if metadata.expirationBlocked = true ∧ metadata.expirationAuthUsers = some authUsers ∧
    expected ∈ s.rules then s
  else
    let (rules, metadata) := removeExpirationRule s.rules metadata
    store s userId (expected :: rules)
      { metadata with expirationAuthUsers := some authUsers, expirationBlocked := true }

def expired (users : Users) (now : Int) (userId : String) : Bool :=
  match (registryUser users userId).expiresAt with
  | none => false
  | some expiresAt => expiresAt ≤ now

def expirationPending (s : Node) (userId : String) : Bool :=
  let metadata := registryUser s.users userId
  let names := sortedSet (userAuthNames s.users userId)
  !(metadata.expirationBlocked && decide (metadata.expirationAuthUsers = some names) &&
    decide (Rule.reject names ∈ s.rules))

/-- One pass of the scheduler. The writer is entered only when some expired user lacks its rule. -/
def processUserExpirations (h : Host) (now : Int) (s : Node) : Node :=
  if h.expirationEnabled && (s.users.keys.filter (expired s.users now)).any
    (expirationPending s) then
    s.users.keys.foldl (fun s userId => if expired s.users now userId then
      addExpirationRule userId s else s) s
  else s

def positivePolicyValue (value : Option Nat) : Option Nat := value.filter (0 < ·)

structure Renewal where
  expiresAt : Int
  trafficLimitBytes : Option Nat := none
  maxSourceIps : Option Nat := none
  now : Int
  deriving DecidableEq, Repr

def extend (userId : String) (renewal : Renewal) (s : Node) : Node :=
  let metadata := registryUser s.users userId
  let metadata := { metadata with
    trafficLimitBytes := if renewal.trafficLimitBytes.isSome then
      positivePolicyValue renewal.trafficLimitBytes
      else metadata.trafficLimitBytes
    maxSourceIps := if renewal.maxSourceIps.isSome then positivePolicyValue renewal.maxSourceIps
      else metadata.maxSourceIps
    expiresAt := some renewal.expiresAt
    expirationUpdatedAt := some renewal.now }
  let (rules, metadata) := removeExpirationRule s.rules metadata
  store s userId rules metadata

def restoreWindowPassed (old : Option Int) (now : Int) : Bool :=
  match old with
  | none => false
  | some old => old + restoreWindow ≤ now

def renewOne (renewal : Renewal) (userId : String) (s : Node) : Except String Node :=
  let old := (registryUser s.users userId).expiresAt
  if userExists s.inbounds s.users userId = false then .error ("user not found: " ++ userId)
  else if restoreWindowPassed old renewal.now then
    .error ("user restore window has expired: " ++ userId)
  else if old.any (fun old => 0 < (renewal.expiresAt - old).natAbs ∧
    (renewal.expiresAt - old).natAbs < second) then .ok s
  else if old.any (fun old => renewal.expiresAt < old) then
    .error ("renewal cannot shorten the existing expiration: " ++ userId)
  else .ok (extend userId renewal s)

def renewEach (renewal : Renewal) : List String → Node → Except String Node
  | [], s => .ok s
  | userId :: rest, s => do renewEach renewal rest (← renewOne renewal userId s)

def renewUsers (userIds : List String) (renewal : Renewal) (s : Node) : Except String Node :=
  if userIds = [] ∨ "" ∈ userIds ∨
    ¬ userIds.Nodup then .error "userIds must be non-empty and unique"
  else if 1000 < userIds.length then .error "too many users in one renewal batch"
  else if renewal.expiresAt ≤ renewal.now then .error "expiresAt must be in the future"
  else renewEach renewal userIds s

def updateUserExpiration (userId : String) (expiresAt now : Int) (s : Node) : Except String Node :=
  if expiresAt ≤ now then .error "expiresAt must be in the future"
  else if userExists s.inbounds s.users userId = false then .error ("user not found: " ++ userId)
  else if restoreWindowPassed (registryUser s.users userId).expiresAt now then
    .error "user restore window has expired"
  else .ok (extend userId { expiresAt := expiresAt, now := now } s)

def restoreUser (userId : String) (expiresAt now : Int) (s : Node) : Except String Node :=
  let old := (registryUser s.users userId).expiresAt
  if expiresAt ≤ now then .error "expiresAt must be in the future"
  else if userExists s.inbounds s.users userId = false then
    if userId ∈ s.expiredUsers then .error "user is archived and must be recreated"
    else .error ("user not found: " ++ userId)
  else if old = none ∨ restoreWindowPassed old now then .error "user restore window has expired"
  else .ok (extend userId { expiresAt := expiresAt, now := now } s)

structure ExpirationSync where
  userId : String
  expiresAt : Option Int
  server : String
  port : Nat
  username : Option String
  password : Option String
  expectedExpiresAt : Option Int
  snapshotStartedAt : Option Int
  deriving DecidableEq, Repr

/-- What a snapshot is compared with: the recorded exit address, or else the server of the
outbound. -/
def upstreamAddress (metadata : Metadata) (outbound : Outbound) : String :=
  if metadata.sourceIp.getD "" ≠ "" then metadata.sourceIp.getD "" else outbound.server

def checkSync (h : Host) (item : ExpirationSync) (s : Node) : Except String Int :=
  let metadata := registryUser s.users item.userId
  let old := metadata.expiresAt
  match item.expiresAt, s.outbounds.reverse.find? (·.tag = outboundTag item.userId) with
  | none, _ => .error "invalid expiration"
  | some expiresAt, found =>
    if userExists s.inbounds s.users item.userId = false then
      .error "user not found; expiration synchronization refused"
    else match found with
    | none => .error "upstream proxy mismatch; expiration synchronization refused"
    | some outbound =>
      if outbound.type ≠ .socks ∧ outbound.type ≠ .socks5 then
        .error "upstream proxy mismatch; expiration synchronization refused"
      else if (h.lower (strip (upstreamAddress metadata outbound)), outbound.serverPort,
          outbound.username, outbound.password) ≠ (h.lower (strip item.server), some item.port,
          item.username, item.password) then
        .error "upstream proxy mismatch; expiration synchronization refused"
      else if old ≠ item.expectedExpiresAt ∧ old ≠ some expiresAt then
        .error "expiration changed concurrently; synchronization refused"
      else if old ≠ some expiresAt ∧ item.snapshotStartedAt.any (fun started =>
          metadata.expirationUpdatedAt.any (fun updated => started < updated)) then
        .error "expiration newer than upstream snapshot; synchronization refused"
      else .ok expiresAt

def applySync (h : Host) (now : Int) (userId : String) (expiresAt : Int) (s : Node) : Node :=
  let metadata := { registryUser s.users userId with expiresAt := some expiresAt }
  if now < expiresAt then
    let (rules, metadata) := removeExpirationRule s.rules metadata
    store s userId rules metadata
  else if h.expirationEnabled then addExpirationRule userId (store s userId s.rules metadata)
  else store s userId s.rules metadata

def syncOne (h : Host) (now : Int) (item : ExpirationSync) (s : Node) : Except String Node := do
  .ok (applySync h now item.userId (← checkSync h item s) s)

/-- A refused item is reported in the result and leaves the node as it was. -/
def syncUserExpirations (h : Host) (items : List ExpirationSync) (now : Int) (s : Node) :
    Except String Node :=
  if (items.map (·.userId)).Nodup then
    .ok (items.foldl (fun s item => orUnchanged (syncOne h now item s) s) s)
  else .error "duplicate userId in expiration synchronization"

def managedSourceRules (authUsers : List String) : Option (List String) → List Rule
  | none | some [] => []
  | some cidrs => [.rejectSources authUsers cidrs]

def managedEnforcementRules (metadata : Metadata) : List Rule :=
  match metadata.enforcementAuthUsers with
  | none | some [] => []
  | some authUsers =>
    (if metadata.enforcementTrafficBlocked then [.reject authUsers] else []) ++
      managedSourceRules authUsers metadata.enforcementBlockedSourceCidrs

def managedExpirationRules (metadata : Metadata) : List Rule :=
  match metadata.expirationAuthUsers with
  | none | some [] => []
  | some raw => [.reject (normalized raw)]

def managedRules (metadata : Metadata) : List Rule :=
  managedExpirationRules metadata ++ managedEnforcementRules metadata

def afterManagedEnforcementRules (rules : List Rule) (metadata : Metadata) : Nat :=
  afterLast (fun rule => decide (rule ∈ managedRules metadata)) rules

/-- An expired user may have two equal reject rules; the first one belongs to the expiration
block. -/
def removeManagedEnforcementRules (rules : List Rule) (metadata : Metadata) : List Rule :=
  removeAllBut (managedEnforcementRules metadata)
    (if metadata.expirationBlocked then (managedExpirationRules metadata).head? else none) rules

structure Enforcement where
  trafficBlocked : Bool := false
  blockedSourceIps : List String := []
  deriving DecidableEq, Repr

def enforcementNames (s : Node) (userId : String) : List String :=
  sortedSet (mappedNames s.inbounds s.users userId)

def managedIndex (rules : List Rule) (metadata : Metadata) : Nat :=
  let index := rules.findIdx (· ∈ managedEnforcementRules metadata)
  if index < rules.length then index else 0

def enforce (userId : String) (metadata : Metadata) (trafficBlocked : Bool)
    (sourceCidrs : List String) (s : Node) : Node :=
  let authUsers := enforcementNames s userId
  let position := managedIndex s.rules metadata
  let rules := removeManagedEnforcementRules s.rules metadata
  if trafficBlocked then
    store s userId (insertAt position (.reject authUsers) rules)
      { metadata with
        enforcementAuthUsers := some authUsers
        enforcementTrafficBlocked := true
        enforcementBlockedSourceCidrs := none }
  else if sourceCidrs ≠ [] then
    store s userId (insertAt position (.rejectSources authUsers sourceCidrs) rules)
      { metadata with
        enforcementAuthUsers := some authUsers
        enforcementTrafficBlocked := false
        enforcementBlockedSourceCidrs := some sourceCidrs }
  else
    store s userId rules
      { metadata with
        enforcementAuthUsers := none
        enforcementTrafficBlocked := false
        enforcementBlockedSourceCidrs := none }

def enforcementCurrent (s : Node) (userId : String) (metadata : Metadata) (trafficBlocked : Bool)
    (sourceCidrs : List String) : Bool :=
  decide (metadata.enforcementTrafficBlocked = trafficBlocked) &&
  decide (normalized (metadata.enforcementBlockedSourceCidrs.getD []) = sourceCidrs) &&
  decide (normalized (metadata.enforcementAuthUsers.getD []) =
    if trafficBlocked ∨ sourceCidrs ≠ [] then enforcementNames s userId else [])

def sourceCidrs (h : Host) (persistSourceBlocks : Bool) (desired : Enforcement) : List String :=
  if persistSourceBlocks then sortedSet (desired.blockedSourceIps.filterMap h.sourceIpCidr) else []

def hasEnforcement (metadata : Metadata) (trafficBlocked : Bool)
    (sourceCidrs : List String) : Bool :=
  trafficBlocked || decide (sourceCidrs ≠ []) || metadata.enforcementTrafficBlocked ||
    decide (normalized (metadata.enforcementBlockedSourceCidrs.getD []) ≠ [])

def syncUserEnforcement (h : Host) (persistSourceBlocks : Bool) (s : Node) (userId : String)
    (desired : Enforcement) : Node :=
  let cidrs := sourceCidrs h persistSourceBlocks desired
  match s.users.get? userId with
  | none => s
  | some metadata =>
    if hasEnforcement metadata desired.trafficBlocked cidrs = false ∧
        normalized (metadata.enforcementAuthUsers.getD []) = [] then s
    else if (userAuthNames s.users userId).all (· ∉ existingAuthNames s.inbounds) then s
    else if enforcementCurrent s userId metadata desired.trafficBlocked cidrs then s
    else enforce userId metadata desired.trafficBlocked cidrs s

/-- `sync_user_enforcements`, without the cached answer, which skips a call that would change
nothing. -/
def syncUserEnforcements (h : Host) (persistSourceBlocks : Bool)
    (enforcements : Dict String Enforcement) (s : Node) : Node :=
  enforcements.entries.foldl (fun s item =>
    syncUserEnforcement h persistSourceBlocks s item.1 item.2) s

end NodeManager.DenyRules
