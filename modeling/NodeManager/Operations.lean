import NodeManager.Accounts

namespace NodeManager.Operations

open Dictionary Singbox Outcomes DenyRules Bindings Accounts

inductive Operation
  | setUserAccess (userId : String) (enabled : Bool)
  | processUserExpirations (now : Int)
  | renewUsers (userIds : List String) (renewal : Renewal)
  | updateUserExpiration (userId : String) (expiresAt now : Int)
  | restoreUser (userId : String) (expiresAt now : Int)
  | syncUserExpirations (items : List ExpirationSync) (now : Int)
  | syncUserEnforcements (enforcements : Dict String Enforcement) (persistSourceBlocks : Bool)
  | createUser (request : CreateUser)
  | bindProxy (userId : String) (proxy : Proxy) (syncSocksCredentials : Bool)
      (newUuid : Option String)
  | bindMultipleProxies (userId : String) (proxies : List Proxy) (balancing : Balancing)
  | direct (userId : String)
  | credentials (userId : String) (uuid socksUsername socksPassword : Option String)
  | deleteUser (userId : String)
  | migrateLegacySocksUsernames
  | ensureUserOutbounds (order : List String)
  deriving DecidableEq, Repr

def perform (h : Host) : Operation → Node → Except String Node
  | .setUserAccess userId enabled, s => setUserAccess userId enabled s
  | .processUserExpirations now, s => .ok (processUserExpirations h now s)
  | .renewUsers userIds renewal, s => renewUsers userIds renewal s
  | .updateUserExpiration userId expiresAt now, s => updateUserExpiration userId expiresAt now s
  | .restoreUser userId expiresAt now, s => restoreUser userId expiresAt now s
  | .syncUserExpirations items now, s => syncUserExpirations h items now s
  | .syncUserEnforcements enforcements persist, s =>
    .ok (syncUserEnforcements h persist enforcements s)
  | .createUser request, s => createUser h request s
  | .bindProxy userId proxy sync newUuid, s => bindProxy h userId proxy sync newUuid s
  | .bindMultipleProxies userId proxies balancing, s =>
    bindMultipleProxies h userId proxies balancing s
  | .direct userId, s => direct userId s
  | .credentials userId uuid socksUsername socksPassword, s =>
    credentials h userId uuid socksUsername socksPassword s
  | .deleteUser userId, s => .ok (deleteUser userId s)
  | .migrateLegacySocksUsernames, s => .ok (migrateLegacySocksUsernames h s)
  | .ensureUserOutbounds order, s => .ok (ensureUserOutbounds order s)

/-- `mutate_config` works on copies, so a refused operation leaves the files as they were. -/
def mutateConfig (h : Host) (operation : Operation) (s : Node) : Node :=
  orUnchanged (perform h operation s) s

def subjects (s : Node) : Operation → List String
  | .setUserAccess userId _ => [userId]
  | .processUserExpirations now => s.users.keys.filter (expired s.users now)
  | .renewUsers userIds _ => userIds
  | .updateUserExpiration userId _ _ => [userId]
  | .restoreUser userId _ _ => [userId]
  | .syncUserExpirations items _ => items.map (·.userId)
  | .syncUserEnforcements enforcements _ => enforcements.keys
  | .createUser request => [request.userId]
  | .bindProxy userId _ _ _ => [userId]
  | .bindMultipleProxies userId _ _ => [userId]
  | .direct userId => [userId]
  | .credentials userId _ _ _ => [userId]
  | .deleteUser userId => [userId]
  | .migrateLegacySocksUsernames => Identities.discoverUserIds s.inbounds s.users
  | .ensureUserOutbounds order => order

def requestedUsername : Operation → Option String
  | .createUser request =>
    if .socks ∈ request.protocols then some request.effectiveSocksUsername else none
  | .credentials _ _ socksUsername _ => socksUsername.filter (· ≠ "")
  | .bindProxy _ proxy true _ => some (proxy.username.getD "")
  | _ => none

def isBlocking : Operation → Bool
  | .setUserAccess _ _ | .processUserExpirations _ | .renewUsers _ _ | .updateUserExpiration _ _ _
  | .restoreUser _ _ _ | .syncUserExpirations _ _ => true
  | .syncUserEnforcements _ persist => !persist
  | _ => false

end NodeManager.Operations
