import NodeManager.Text
import NodeManager.Dictionary

namespace NodeManager.Singbox

open Dictionary

/-- VLESS, VMess and Trojan entries have a `name`, SOCKS entries a `username`; no inbound schema of
sing-box has both. -/
inductive Login
  | name (value : String)
  | username (value : String)
  | anonymous
  deriving DecidableEq, Repr

structure InboundUser where
  login : Login
  uuid : Option String := none
  password : Option String := none
  flow : Option String := none
  deriving DecidableEq, Repr

def InboundUser.name (user : InboundUser) : Option String :=
  match user.login with
  | .name value => some value
  | _ => none

def InboundUser.username (user : InboundUser) : Option String :=
  match user.login with
  | .username value => some value
  | _ => none

def InboundUser.carries (user : InboundUser) (names : List String) : Bool :=
  user.name.any (· ∈ names) || user.username.any (· ∈ names)

structure Inbound where
  tag : String
  listenPort : Option Nat := none
  users : List InboundUser := []
  deriving DecidableEq, Repr

inductive OutboundType
  | direct
  | socks
  | socks5
  | selector
  | urltest
  | other (type : String)
  deriving DecidableEq, Repr

/-- An outbound; a missing `tag` or `server` reads as the empty string, as `str(x or "")` does. -/
structure Outbound where
  type : OutboundType
  tag : String
  server : String := ""
  serverPort : Option Nat := none
  username : Option String := none
  password : Option String := none
  outbounds : List String := []
  default : Option String := none
  url : Option String := none
  interval : Option String := none
  tolerance : Option Nat := none
  options : List (String × String) := []
  deriving DecidableEq, Repr

inductive AuthUser
  | one (name : String)
  | many (names : List String)
  deriving DecidableEq, Repr

inductive RuleAction
  | route (outbound : String)
  | reject
  | routeOptions
  | direct
  | bypass
  | hijackDns
  | sniff
  | resolve
  | predefined
  deriving DecidableEq, Repr

/-- A route rule. `conditions` are the match fields the manager does not write, `options` the
parameters of the action. -/
structure Rule where
  authUser : Option AuthUser := none
  sourceIpCidr : Option (List String) := none
  conditions : List (String × String) := []
  action : RuleAction
  options : List (String × String) := []
  deriving DecidableEq, Repr

namespace Rule

def names (rule : Rule) : List String :=
  match rule.authUser with
  | none => []
  | some (.one name) => [name]
  | some (.many names) => names

def outbound (rule : Rule) : Option String :=
  match rule.action with
  | .route tag => some tag
  | _ => none

def reject (names : List String) : Rule := { authUser := some (.many names), action := .reject }

def rejectSources (names cidrs : List String) : Rule :=
  { authUser := some (.many names), sourceIpCidr := some cidrs, action := .reject }

def route (names : List String) (tag : String) : Rule :=
  { authUser := some (.many names), action := .route tag }

def touches (rule : Rule) (ns : List String) : Bool := rule.names.any (· ∈ ns)

def matchesAlone (rule : Rule) (name : String) : Bool :=
  name ∈ rule.names && rule.sourceIpCidr.isNone && rule.conditions.isEmpty

@[simp] theorem names_reject (ns : List String) : (reject ns).names = ns := rfl

@[simp] theorem names_rejectSources (ns cidrs : List String) :
    (rejectSources ns cidrs).names = ns := rfl

@[simp] theorem names_route (ns : List String) (tag : String) : (route ns tag).names = ns := rfl

@[simp] theorem outbound_reject (ns : List String) : (reject ns).outbound = none := rfl

@[simp] theorem outbound_rejectSources (ns cidrs : List String) :
    (rejectSources ns cidrs).outbound = none := rfl

@[simp] theorem outbound_route (ns : List String) (tag : String) :
    (route ns tag).outbound = some tag := rfl

theorem reject_injective {ns ms : List String} (h : reject ns = reject ms) : ns = ms :=
  congrArg names h

theorem touches_iff {rule : Rule} {ns : List String} :
    rule.touches ns = true ↔ ∃ n ∈ rule.names, n ∈ ns := by
  simp [touches]

end Rule

/-- The registry row of a user. A block flag is `true` only for a stored `True`; instants are
microseconds, absent when missing or unparseable. -/
structure Metadata where
  socksUsername : Option String := none
  createdAt : Option Int := none
  expiresAt : Option Int := none
  expirationUpdatedAt : Option Int := none
  trafficLimitBytes : Option Nat := none
  maxSourceIps : Option Nat := none
  accessEnabled : Option Bool := none
  sourceIp : Option String := none
  sourceAddress : Option String := none
  sourcePort : Option Nat := none
  countryCode : Option String := none
  countryName : Option String := none
  provinceName : Option String := none
  cityName : Option String := none
  accessBlocked : Bool := false
  accessBlockedAuthUsers : Option (List String) := none
  expirationBlocked : Bool := false
  expirationAuthUsers : Option (List String) := none
  enforcementTrafficBlocked : Bool := false
  enforcementAuthUsers : Option (List String) := none
  enforcementBlockedSourceCidrs : Option (List String) := none
  deriving DecidableEq, Repr

abbrev Users := Dict String Metadata

/-- What a mutation works on: inbounds, outbounds and route rules, the `users` and the ids of the
`expiredUsers`. -/
structure Node where
  inbounds : List Inbound := []
  outbounds : List Outbound := []
  rules : List Rule := []
  users : Users := ⟨[], List.nodup_nil⟩
  expiredUsers : List String := []
  deriving DecidableEq, Repr

/-- Settings of the node, and what is asked of Python's Unicode tables, `ipaddress` and name
resolution. -/
structure Host where
  vlessTag : String := "vless-reality"
  vmessTag : String := "vmess"
  socksTag : String := "socks"
  trojanTag : String := "trojan"
  expirationEnabled : Bool := true
  lower : String → String
  upper : String → String
  isDigitBeyondAscii : Char → Bool
  ipAddress : String → Option String
  sourceIpCidr : String → Option String
  getaddrinfo : String → List String
  nodeHost : String
  localNames : List String

instance : Inhabited Host where
  default :=
    { lower := id, upper := id, isDigitBeyondAscii := fun _ => false, ipAddress := fun _ => none,
      sourceIpCidr := fun _ => none, getaddrinfo := fun _ => [], nodeHost := "", localNames := [] }

def validUserId (userId : String) : Bool :=
  userId.toList.all (fun c => c.isAlphanum || c = '.' || c = '_' || c = '-') &&
    decide (1 ≤ userId.length ∧ userId.length ≤ 64)

end NodeManager.Singbox
