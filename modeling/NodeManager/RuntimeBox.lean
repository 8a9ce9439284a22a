import NodeManager.OutboundManager
import NodeManager.ReloadPlans
import NodeManager.RuleLeases
import NodeManager.RuntimeCore
import NodeManager.Userstate

namespace NodeManager.RuntimeBox

open Dictionary JsonValues Outcomes RuleSnapshots Runs UserReload Userstate

/-- What the instance takes from elsewhere: the planner's library, and the tags an outbound depends
on. -/
structure Env where
  lib : Library
  dependencies : Object → List String

def taggedRows (list : List Json) : List (String × Object) :=
  list.zipIdx.map (fun entry =>
    (if tagOf entry.1 = "" then toString entry.2 else tagOf entry.1, entry.1.object?.getD []))

def effectiveTags (list : List Json) : List String := (taggedRows list).map Prod.fst

def checkOptions (config : Object) : Bool :=
  (effectiveTags (rows config "inbounds")).Nodup &&
    (effectiveTags (rows config "outbounds") ++ effectiveTags (rows config "endpoints")).Nodup

def userstateKey (name : String) (index : Nat) : String :=
  if name ≠ "" then name else "\x00anonymous:" ++ toString index

def tableKey (inbound : Object) (user : Json × Nat) : String :=
  if field inbound "type" = some (.str "socks") then userKey inbound user.1
  else userstateKey (userKey inbound user.1) user.2

def addFingerprint (lib : Library) (inbound : Object) (check : Object → Option String)
    (duplicate : String) (result : Dict String String) (user : Json × Nat) :
    Except String (Dict String String) :=
  match check (user.1.object?.getD []) with
  | some message => .error message
  | none =>
    if tableKey inbound user ∈ result.keys then .error duplicate
    else .ok (result.set (tableKey inbound user) (lib.fingerprint user.1))

def fingerprints (lib : Library) (inbound : Object) (check : Object → Option String)
    (duplicate : String) :
    Except String (Dict String String) :=
  (rows inbound "users").zipIdx.foldlM (addFingerprint lib inbound check duplicate) Dict.empty

def kernelTLS (inbound : Object) : Bool :=
  field (nested inbound "tls") "kernel_tx" = some (.bool true) ||
    field (nested inbound "tls") "kernel_rx" = some (.bool true)

def prepareVless (lib : Library) (inbound : Object) : Except String (Dict String String) :=
  fingerprints lib inbound (fun user =>
    let flow := (text user "flow").getD ""
    if kernelTLS inbound ∧ flow ≠ "" then some "VLESS flow changes are incompatible with kernel TLS"
    else if flow ≠ "" ∧ flow ≠ "xtls-rprx-vision" then some "invalid VLESS flow"
    else none) "duplicate VLESS user"

def prepareVmess (lib : Library) (reloading : Bool) (inbound : Object) :
    Except String (Dict String String) :=
  fingerprints lib inbound (fun user =>
    if reloading ∧ (field user "alterId").any (· ≠ .num 0) then
      some "dynamic VMess requires AEAD users"
    else none)
    "duplicate VMess user"

def prepareSocks (lib : Library) (reloading required : Bool) (inbound : Object) :
    Except String (Dict String String × Bool) := do
  let users ← fingerprints lib inbound (fun user =>
    let name := (text user "username").getD ""
    let password := (text user "password").getD ""
    if name = "" ∨ password = "" ∨ 255 < name.utf8ByteSize ∨ 255 < password.utf8ByteSize then
      some "SOCKS credentials require 1 to 255 bytes"
    else none) "duplicate SOCKS user"
  let requireAuth := field inbound "require_auth" = some (.bool true)
  let empty := rows inbound "users" = []
  let required := requireAuth ∨ ¬empty ∨ required
  require (¬(reloading ∧ required ∧ empty ∧ ¬requireAuth))
    "empty authenticated SOCKS requires require_auth:true for restart safety"
  pure (users, required)

/-- `prepareUsers` of the inbound's type: the fingerprints of its users, and whether it asks for
them. -/
def prepareUsers (lib : Library) (reloading required : Bool) (inbound : Object) :
    Except String (Dict String String × Bool) :=
  if field inbound "type" = some (.str "vless") then (prepareVless lib inbound).map (·, true)
  else if field inbound "type" = some (.str "vmess") then
    (prepareVmess lib reloading inbound).map (·, true)
  else prepareSocks lib reloading required inbound

inductive ReloadError
  | closed
  | conflict
  | plan (error : PlanError)
  | options
  | inbound (message : String)
  | rules
  | outbounds (message : String)
  deriving DecidableEq, Repr

structure Box where
  config : Object
  contentHash : String
  instanceId : String
  revision : Nat := 0
  done : Bool := false
  users : Manager := {}
  required : String → Bool := fun _ => false
  rules : RuleLeases.State
  outbounds : OutboundManager.Manager

/-- A call of `ReloadUsers` with the leases taken and released while it prepares, and the failures
of the code it calls. -/
structure Call where
  updated : Object
  expectedRevision : Option Nat := none
  expectedInstance : String := ""
  inboundFails : String → Option String := fun _ => none
  ruleFate : Nat → Fate := fun _ => .works
  outboundFate : Nat → OutboundManager.Fate := fun _ => .works
  acquisitions : List (Option Nat) := []

inductive Outcome
  | accepted
  | unchanged
  | failed (error : ReloadError)
  deriving DecidableEq, Repr

structure InboundUpdate where
  prepared : Prepared
  required : Bool

def prepareInbounds (env : Env) (b : Box) (call : Call) (changedNames : List String) :
    List Object → Manager → Except ReloadError (Manager × List InboundUpdate)
  | [], m => .ok (m, [])
  | inbound :: rest, m => do
    let tag := (text inbound "tag").getD ""
    require (supported inbound) (.plan .unsupported)
    let users ← (prepareUsers env.lib true (b.required tag) inbound).mapError .inbound
    let result := m.prepare tag users.1 changedNames
    match call.inboundFails tag with
    | some message => .error (.inbound message)
    | none =>
      let (manager, updates) ← prepareInbounds env b call changedNames rest result.1
      pure (manager, ⟨result.2, users.2⟩ :: updates)

def leaseAction : Option Nat → RuleLeases.Action
  | none => .acquire
  | some snapshot => .release snapshot

def wantedRules (call : Call) (plan : UserUpdatePlan) : List Wanted :=
  ((ReloadPlans.rules call.updated).zip plan.ruleIndexes).zipIdx.map (fun entry =>
    ⟨entry.1.1, entry.1.2, call.ruleFate entry.2⟩)

def wantedOutbounds (call : Call) (plan : UserUpdatePlan) : List OutboundManager.Wanted :=
  plan.outboundIndexes.map (fun index =>
    let value := (rows call.updated "outbounds").getD index .null
    ⟨⟨tagOf value, value.object?.getD []⟩, call.outboundFate index⟩)

def plannedInbounds (call : Call) (plan : UserUpdatePlan) : List Object :=
  plan.inboundIndexes.map (fun index =>
    ((rows call.updated "inbounds").getD index .null).object?.getD [])

def setRequired (required : String → Bool) (updates : List InboundUpdate) : String → Bool :=
  updates.foldl (fun required update =>
    Function.update required update.prepared.table update.required) required

def publishReload (env : Env) (b : Box) (call : Call) (plan : UserUpdatePlan) (users : Manager)
    (updates : List InboundUpdate) (rules : RuleLeases.State) (outbounds : OutboundManager.Manager)
    (prepared : List OutboundManager.Outbound) : Box :=
  { b with
    config := call.updated
    contentHash := env.lib.fingerprint (.obj call.updated)
    revision := RuntimeCore.nextRevision b.revision
    users := users.commit (updates.map InboundUpdate.prepared)
    required := setRequired b.required updates
    rules := RuleLeases.step .commit rules
    outbounds := (outbounds.publish prepared plan.removedOutbounds).closeOutbounds
      (outbounds.retired plan.removedOutbounds) }

def applyPlan (env : Env) (b : Box) (call : Call) (plan : UserUpdatePlan) (users : Manager)
    (updates : List InboundUpdate) : Box × Outcome :=
  let rules := RuleLeases.step (.prepare (wantedRules call plan)) b.rules
  match rules.pending with
  | none => ({ b with rules := rules }, .failed .rules)
  | some _ =>
    let rules := run RuleLeases.step (call.acquisitions.map leaseAction) rules
    match b.outbounds.prepareUserUpdate env.dependencies (wantedOutbounds call plan)
      plan.removedOutbounds with
    | (outbounds, .error message) =>
      ({ b with rules := RuleLeases.step .abort rules, outbounds := outbounds },
        .failed (.outbounds message))
    | (outbounds, .ok prepared) =>
      (publishReload env b call plan users updates rules outbounds prepared, .accepted)

def reloadUsers (env : Env) (call : Call) (b : Box) : Box × Outcome :=
  if b.done then (b, .failed .closed)
  else if call.expectedInstance ≠ "" ∧
    call.expectedInstance ≠ b.instanceId then (b, .failed .conflict)
  else if env.lib.fingerprint (.obj call.updated) = b.contentHash then (b, .unchanged)
  else if call.expectedRevision.any (· ≠ b.revision) then (b, .failed .conflict)
  else
    match planUserUpdate env.lib b.config call.updated with
    | .error error => (b, .failed (.plan error))
    | .ok plan =>
      if ¬checkOptions call.updated then (b, .failed .options)
      else
        match prepareInbounds env b call plan.changedNames (plannedInbounds call plan) b.users with
        | .error error => (b, .failed error)
        | .ok (users, updates) => applyPlan env b call plan users updates

def newInbound (lib : Library) (state : Manager × (String → Bool)) (inbound : String × Object) :
    Except String (Manager × (String → Bool)) :=
  if supported inbound.2 then do
    let users ← prepareUsers lib false (state.2 inbound.1) inbound.2
    let result := state.1.prepare inbound.1 users.1 []
    pure (result.1.commit [result.2], Function.update state.2 inbound.1 users.2)
  else .ok state

def finalTag (config : Object) : String := (text (nested config "route") "final").getD ""

def newOutbounds (env : Env) (config : Object) : OutboundManager.Manager :=
  (taggedRows (rows config "outbounds")).foldl
    (fun m outbound => m.create env.dependencies ⟨outbound.1, outbound.2⟩)
    { defaultTag := finalTag config, endpoints := effectiveTags (rows config "endpoints") }

def start (env : Env) (instanceId : String) (config : Object) : Except String Box := do
  require (checkOptions config) "duplicate tag"
  let users ← (taggedRows (rows config "inbounds")).foldlM (newInbound env.lib) ({}, fun _ => false)
  let outbounds ← (newOutbounds env config).start
  pure
    { config := config
      contentHash := env.lib.fingerprint (.obj config)
      instanceId := instanceId
      users := users.1
      required := users.2
      rules := { router := .ofRules (ReloadPlans.rules config) }
      outbounds := outbounds }

inductive Action
  | reload (call : Call)
  | lease (acquisition : Option Nat)
  | newSession
  | bind (handle : Handle) (token : Token)
  | closeSession (handle : Handle)

def step (env : Env) : Action → Box → Box
  | .reload call, b => (reloadUsers env call b).1
  | .lease acquisition, b => { b with rules := RuleLeases.step (leaseAction acquisition) b.rules }
  | .newSession, b => { b with users := b.users.newSession }
  | .bind handle token, b =>
    if b.users.valid token then { b with users := (b.users.bind handle token).1 } else b
  | .closeSession handle, b => { b with users := b.users.close handle }

end NodeManager.RuntimeBox
