import NodeManager.Dictionary
import NodeManager.JsonValues
import NodeManager.Outcomes

namespace NodeManager.UserReload

open Dictionary JsonValues Outcomes

inductive PlanError
  | unsupported
  | message (text : String)
  deriving DecidableEq, Repr

structure UserUpdatePlan where
  inboundIndexes : List Nat
  outboundIndexes : List Nat
  removedOutbounds : List String
  ruleIndexes : List (Option Nat)
  changedNames : List String
  deriving DecidableEq, Repr

/-- What the planner takes from elsewhere: the canonical form of a UUID, and the hash of a JSON
value. -/
structure Library where
  canonicalUuid : String → String
  fingerprint : Json → String

def addRow (result : Dict String Object) (value : Json) : Except PlanError (Dict String Object) :=
  match value.object? with
  | none => .error (.message "expected an object")
  | some row =>
    let tag := (text row "tag").getD ""
    if tag = "" ∨ tag ∈ result.keys then .error (.message "missing or duplicate tag")
    else .ok (result.set tag row)

def namedRows : Option Json → Except PlanError (Dict String Object)
  | none | some .null => .ok Dict.empty
  | some (.arr list) => list.foldlM addRow Dict.empty
  | some _ => .error (.message "expected an array")

def userNames (row : Object) : Option (List String) :=
  match field row "auth_user" with
  | some (.str name) => some [name]
  | some (.arr values) => if values = [] then none else values.mapM Json.str?
  | _ => none

def allowedKeys : List String :=
  ["type", "auth_user", "action", "outbound", "inbound", "network", "source_ip_cidr", "ip_cidr",
    "source_port", "source_port_range", "port", "port_range", "domain", "domain_suffix",
    "domain_keyword", "domain_regex", "method", "no_drop"]

def dynamicRule (row : Object) (known blocked : List String) : Bool :=
  match userNames row with
  | none => false
  | some names =>
    names.all (fun name => name ≠ "" && name ∉ blocked) && names.any (· ∈ known) &&
      row.all (fun entry => entry.1 ∈ allowedKeys) &&
      (field row "type").all (fun kind => kind = .str "default" || kind = .str "") &&
      (field row "action").all (fun action => action = .str "route" || action = .str "reject" ||
        action = .str "")

structure Seen where
  names : List String := []
  ids : List String := []

def validateUser (lib : Library) (kind : Option Json) (seen : Seen) (value : Json) :
    Except PlanError Seen :=
  match value.object? with
  | none => .error (.message "invalid user")
  | some user =>
    let name := (text user (if kind = some (.str "socks") then "username" else "name")).getD ""
    let password := (text user "password").getD ""
    let raw := (text user "uuid").getD ""
    if kind = some (.str "socks") ∧
      (password = "" ∨ 255 < name.utf8ByteSize ∨ 255 < password.utf8ByteSize) then
      .error (.message "invalid SOCKS credential length")
    else if name = "" ∨ name ∈ seen.names then
      .error (.message "missing or duplicate authentication name")
    else if kind ≠ some (.str "socks") ∧ raw = "" then .error (.message "missing UUID")
    else if kind ≠ some (.str "socks") ∧ lib.canonicalUuid raw ∈ seen.ids then
      .error (.message "duplicate canonical UUID")
    else if kind = some (.str "vmess") ∧ (field user "alterId").any (· ≠ .num 0) then
      .error (.message "dynamic VMess requires AEAD users")
    else .ok ⟨seen.names ++ [name], if kind = some (.str "socks") then seen.ids
      else seen.ids ++ [lib.canonicalUuid raw]⟩

def validateUsers (lib : Library) (row : Object) : Except PlanError (List String) :=
  match field row "users" with
  | none | some .null => .ok []
  | some (.arr list) => (list.foldlM (validateUser lib (field row "type")) {}).map Seen.names
  | some _ => .error (.message "invalid users array")

mutual

def references (tags : List String) : Json → Bool
  | .obj fields => referencesFields tags fields
  | .arr items => referencesItems tags items
  | _ => false

def referencesFields (tags : List String) : List (String × Json) → Bool
  | [] => false
  | (key, item) :: fields =>
    ((key = "outbound" || key = "detour" || key = "download_detour") && item.str?.any (· ∈ tags)) ||
      references tags item || referencesFields tags fields

def referencesItems (tags : List String) : List Json → Bool
  | [] => false
  | item :: items => references tags item || referencesItems tags items

end

def blockedNames (inbound : Object) : List String :=
  (rows inbound "users").flatMap (fun user =>
    match user.object? with
    | none => []
    | some row => (text row "name").toList ++ (text row "username").toList)

structure Scope where
  known : List String := []
  blocked : List String := []
  deriving DecidableEq, Repr

def Scope.settle (scope : Scope) : Scope :=
  { scope with known := (scope.known.filter (· ∉ scope.blocked)).dedup }

def supportedTypes : List Json := [.str "vless", .str "vmess", .str "socks"]

def supported (inbound : Object) : Bool := (field inbound "type").any (· ∈ supportedTypes)

def mutableKeys (inbound : Object) : List String :=
  if field inbound "type" = some (.str "socks") then ["users", "require_auth"] else ["users"]

def scanInbound (lib : Library) (newIn : Dict String Object) (scope : Scope)
    (entry : String × Object) :
    Except PlanError Scope :=
  match newIn.get? entry.1 with
  | none => .error .unsupported
  | some next =>
    let old := entry.2
    if ¬supported old then
      if old ≠ next then .error .unsupported
      else .ok { scope with blocked := scope.blocked ++ blockedNames old }
    else
      if field old "type" = some (.str "socks") ∧ field old "require_auth" = some (.bool true) ∧
          field next "require_auth" ≠ some (.bool true) then
        .error (.message "cannot disable required SOCKS authentication")
      else if without old (mutableKeys old) ≠ without next (mutableKeys old) then
        .error .unsupported
      else
        match validateUsers lib old, validateUsers lib next with
        | .ok oldNames, .ok newNames =>
          .ok { scope with known := scope.known ++ oldNames ++ newNames }
        | _, _ =>
          if old ≠ next then .error (.message "dynamic inbound requires valid named users")
          else .ok { scope with blocked := scope.blocked ++ blockedNames old }

structure OutboundChange where
  oldOut : Dict String Object
  newOut : Dict String Object
  removed : List String
  indexes : List Nat
  changed : List String

def keepsDefault (oldRoute before after : Object) : Bool :=
  (field oldRoute "final").isSome ||
    match rows before "outbounds", rows after "outbounds" with
    | [], _ => true
    | _ :: _, [] => false
    | old :: _, next :: _ => old.object?.bind (field · "tag") = next.object?.bind (field · "tag")

def tagOf (value : Json) : String := ((value.object?).bind (fun row => text row "tag")).getD ""

def changedIndexes (oldOut : Dict String Object) (list : List Json) : List Nat :=
  (list.zipIdx.filter (fun entry => entry.1.object? ≠ oldOut.get? (tagOf entry.1))).map Prod.snd

def outboundChange (oldOut newOut : Dict String Object) (list : List Json) : OutboundChange :=
  let removed := (oldOut.entries.filter
    (fun entry => newOut.get? entry.1 ≠ some entry.2)).map Prod.fst
  { oldOut := oldOut
    newOut := newOut
    removed := removed
    indexes := changedIndexes oldOut list
    changed := removed ++ (list.filter
      (fun value => value.object? ≠ oldOut.get? (tagOf value))).map tagOf }

def independent (row : Object) : Bool :=
  (field row "type" = some (.str "direct") || field row "type" = some (.str "socks")) &&
    (field row "detour").all (· = .null)

def unreferenced (change : OutboundChange) : Bool :=
  change.oldOut.entries.all (fun entry => entry.1 ∈ change.changed ||
    !referencesFields change.changed entry.2)

/-- An entry of a user's policy: the number of fixed rules before the rule, and the rule without its
users. -/
structure PolicyEntry where
  name : String
  sectionIndex : Nat
  rule : Object
  deriving DecidableEq

structure Policies where
  entries : List PolicyEntry := []
  fixed : List Json := []
  deriving DecidableEq

def addRule (scope : Scope) (change : OutboundChange) (policies : Policies) (value : Json) :
    Except PlanError Policies :=
  match value.object? with
  | none => .error (.message "invalid rule")
  | some row =>
    if ¬dynamicRule row scope.known scope.blocked then
      if references change.changed value then
        .error (.message "outbound is referenced by an unmanaged rule")
      else .ok { policies with fixed := policies.fixed ++ [value] }
    else if (text row "outbound").any
      (fun tag => change.newOut.get? tag = none ∧ change.oldOut.get? tag = none) then
      .error (.message "unknown user outbound")
    else
      .ok { policies with
        entries := policies.entries ++ ((userNames row).getD []).map (fun name =>
          ⟨name, policies.fixed.length, without row ["auth_user"]⟩) }

def policies (scope : Scope) (change : OutboundChange) (list : List Json) :
    Except PlanError Policies :=
  list.foldlM (addRule scope change) {}

def Policies.of (policies : Policies) (name : String) : List PolicyEntry :=
  policies.entries.filter (·.name = name)

def policyChanged (change : OutboundChange) (old new : Policies) (name : String) : Bool :=
  old.of name ≠ new.of name ||
    (old.of name ++ new.of name).any (fun entry => referencesFields change.changed entry.rule)

abbrev Unused := List (Json × Nat)

def reuseRule (lib : Library) (unused : Unused) (next : Json) : Option Nat × Unused :=
  match unused.find? (fun entry => lib.fingerprint entry.1 = lib.fingerprint next) with
  | some entry => if entry.1 = next then (some entry.2, unused.erase entry) else (none, unused)
  | none => (none, unused)

def planRules (lib : Library) (scope : Scope) (newOut : Dict String Object) (unused : Unused) :
    List Json → Except PlanError (List (Option Nat))
  | [] => .ok []
  | next :: rest =>
    let reuse := reuseRule lib unused next
    let row := next.object?.getD []
    if reuse.1 = none ∧ ¬dynamicRule row scope.known scope.blocked then .error .unsupported
    else if reuse.1 = none ∧ (text row "outbound").any (fun tag => newOut.get? tag = none) then
      .error (.message "user rule targets a missing outbound")
    else do
      let indexes ← planRules lib scope newOut reuse.2 rest
      pure (reuse.1 :: indexes)

def userKey (inbound : Object) (user : Json) : String :=
  let key := if field inbound "type" = some (.str "socks") then "username" else "name"
  (user.object?.bind (fun row => text row key)).getD ""

def inboundChanged (oldIn : Dict String Object) (changedNames : List String)
    (inbound : Object) : Bool :=
  oldIn.get? ((text inbound "tag").getD "") ≠ some inbound ||
    (rows inbound "users").any (fun user => userKey inbound user ∈ changedNames)

def planInbounds (lib : Library) (oldIn : Dict String Object) (changedNames : List String) :
    List (Json × Nat) → Except PlanError (List Nat)
  | [] => .ok []
  | (value, index) :: rest => do
    let inbound := value.object?.getD []
    if inboundChanged oldIn changedNames inbound then
      let _ ← validateUsers lib inbound
      let indexes ← planInbounds lib oldIn changedNames rest
      pure (index :: indexes)
    else planInbounds lib oldIn changedNames rest

def targetsRemain (change : OutboundChange) (list : List Json) : Bool :=
  list.all (fun value => ¬(text (value.object?.getD []) "outbound").any
    (fun tag => tag ∈ change.changed ∧ change.newOut.get? tag = none))

/-- The source walks its tables in no fixed order; here it is that of the arrays they come from. -/
def planUserUpdate (lib : Library) (before after : Object) : Except PlanError UserUpdatePlan := do
  let oldIn ← namedRows (field before "inbounds")
  let newIn ← namedRows (field after "inbounds")
  require (oldIn.entries.length = newIn.entries.length ∧
    without before ["inbounds", "outbounds", "route"] =
    without after ["inbounds", "outbounds", "route"]) .unsupported
  let oldRoute := nested before "route"
  let newRoute := nested after "route"
  require (without oldRoute ["rules"] = without newRoute ["rules"]) .unsupported
  let scanned ← oldIn.entries.foldlM (scanInbound lib newIn) {}
  let scope := scanned.settle
  require (keepsDefault oldRoute before after) .unsupported
  let oldOut ← namedRows (field before "outbounds")
  let newOut ← namedRows (field after "outbounds")
  let change := outboundChange oldOut newOut (rows after "outbounds")
  require (∀ tag ∈ change.changed, (oldOut.get? tag).all independent ∧
    (newOut.get? tag).all independent) (.message
    "only independent direct/SOCKS user outbounds can change")
  require (¬referencesFields change.changed (without before ["outbounds", "route"]) ∧
    ¬referencesFields change.changed (without oldRoute ["rules"]))
    (.message "outbound is referenced by global configuration")
  require (unreferenced change) (.message "outbound is referenced by another outbound")
  let oldPolicies ← policies scope change (rows oldRoute "rules")
  let newPolicies ← policies scope change (rows newRoute "rules")
  require (oldPolicies.fixed = newPolicies.fixed) .unsupported
  let changedNames := scope.known.filter (policyChanged change oldPolicies newPolicies)
  let ruleIndexes ← planRules lib scope newOut (rows oldRoute "rules").zipIdx
    (rows newRoute "rules")
  require (targetsRemain change (rows newRoute "rules"))
    (.message "removed outbound is still referenced")
  let inboundIndexes ← planInbounds lib oldIn changedNames (rows after "inbounds").zipIdx
  pure ⟨inboundIndexes, change.indexes, change.removed, ruleIndexes, changedNames⟩

end NodeManager.UserReload
