import NodeManager.DenyRules

namespace NodeManager.Bindings

open Text Dictionary Singbox Identities Occurrences Outcomes DenyRules

structure Proxy where
  server : String
  port : Nat
  username : Option String := none
  password : Option String := none
  sourceIp : Option String := none
  sourceAddress : Option String := none
  countryCode : String := "XX"
  countryName : String := ""
  provinceName : String := ""
  cityName : String := ""
  deriving DecidableEq, Repr

def Proxy.sample (server : String) : Proxy :=
  { server := server, port := 7000, username := some "n", password := some "p" }

abbrev Identity := String × Nat × String × String

def isBracket (c : Char) : Bool := c = '[' || c = ']'

def canonicalIp (h : Host) (value : String) : Option String :=
  h.ipAddress (String.ofList ((stripWith isBracket (strip value)).toList.takeWhile (· ≠ '%')))

def canonicalProxyServer (h : Host) (value : String) : String :=
  let normalized := stripWith isBracket (strip value)
  (canonicalIp h normalized).getD (h.lower normalized)

def proxyIdentity (h : Host) (server : String) (port : Nat)
    (username password : Option String) : Identity :=
  (canonicalProxyServer h server, port, username.getD "", password.getD "")

def isDigit (h : Host) (c : Char) : Bool := c.isDigit || (127 < c.toNat && h.isDigitBeyondAscii c)

def isUserProxyOutboundTag (h : Host) (tag userId : String) : Bool :=
  tag = outboundTag userId ||
    match (if startsWith tag (outboundTag userId) then tag.toList.drop (outboundTag userId).length
      else []) with
    | '-' :: digits => !digits.isEmpty && digits.all (isDigit h)
    | _ => false

def outboundIdentity (h : Host) (outbound : Outbound) : Option Identity :=
  match outbound.type, outbound.serverPort with
  | .socks, some port =>
    if strip outbound.server = "" then none
    else some (proxyIdentity h (strip outbound.server) port outbound.username outbound.password)
  | _, _ => none

def configuredProxyIdentities (h : Host) (outbounds : List Outbound) (excludeUserId : String) :
    List Identity :=
  (outbounds.filter (fun outbound =>
    !(excludeUserId ≠ "" && isUserProxyOutboundTag h outbound.tag excludeUserId))).filterMap
      (outboundIdentity h)

def assertProxyAvailable (h : Host) (outbounds : List Outbound) (userId : String)
    (identity : Identity) :
    Except String Unit :=
  if identity ∈ configuredProxyIdentities h outbounds userId then .error "当前已有这条住宅IP的连接了"
  else .ok ()

def resolveHostAddresses (h : Host) (host : String) : List String :=
  if strip host = "" then []
  else match canonicalIp h (stripWith isBracket (strip host)) with
    | some literal => [literal]
    | none => (h.getaddrinfo (stripWith isBracket (strip host))).filterMap (canonicalIp h)

def localHostAddresses (h : Host) : List String :=
  ["127.0.0.1", "::1"] ++ resolveHostAddresses h h.nodeHost ++
    h.localNames.flatMap (resolveHostAddresses h)

def validateProxyDoesNotLoopToLocalSocks (h : Host) (inbounds : List Inbound) (server : String)
    (port : Nat) :
    Except String Unit := do
  let socksInbound ← findInbound inbounds h.socksTag
  match socksInbound.listenPort with
  | none => .error "the proxy or SOCKS inbound port is invalid"
  | some socksPort =>
    if port ≠ socksPort then .ok ()
    else if (resolveHostAddresses h server).any (· ∈ localHostAddresses h) then
      .error ("proxy loop: upstream SOCKS points to this node's own SOCKS inbound (" ++
        server ++ ":" ++ toString port ++ ")")
    else .ok ()

/-- The upstream address: `sourceAddress` stands in for a missing `server`. -/
def proxyServer (proxy : Proxy) : String :=
  strip (if proxy.server ≠ "" then proxy.server else proxy.sourceAddress.getD "")

def socksOutbound (tag server : String) (port : Nat)
    (username password : Option String) : Outbound :=
  if username.getD "" ≠ "" then
    { type := .socks, tag := tag, server := server, serverPort := some port, username := username,
      password := some (password.getD "") }
  else { type := .socks, tag := tag, server := server, serverPort := some port }

def routeRule (s : Node) (userId : String) : Rule :=
  .route (sortedSet (routeAuthNames s.inbounds s.users userId)) (outboundTag userId)

def withoutRoute (userId : String) (rules : List Rule) : List Rule :=
  rules.filter (fun rule => rule.outbound ≠ some (outboundTag userId))

def insertRoute (userId : String) (s : Node) : Node :=
  let position := afterManagedEnforcementRules s.rules (registryUser s.users userId)
  { s with rules := insertAt position (routeRule s userId) s.rules }

/-- Drop the route rules of the user and put a fresh one behind its managed deny rules. -/
def rebuildRoute (userId : String) (s : Node) : Node :=
  insertRoute userId { s with rules := withoutRoute userId s.rules }

def setProxyBinding (h : Host) (userId : String) (proxy : Proxy) (s : Node) :
    Except String Node := do
  let server := proxyServer proxy
  if server = "" then .error "住宅 SOCKS 缺少上游服务器地址"
  else if proxy.port < 1 ∨ 65535 < proxy.port then .error "住宅 SOCKS 上游端口无效"
  else
    assertProxyAvailable h s.outbounds userId
      (proxyIdentity h server proxy.port proxy.username proxy.password)
    validateProxyDoesNotLoopToLocalSocks h s.inbounds server proxy.port
    let outbound := socksOutbound (outboundTag userId) server proxy.port proxy.username
      proxy.password
    .ok (rebuildRoute userId
      { s with outbounds := s.outbounds.filter (·.tag ≠ outboundTag userId) ++ [outbound] })

def normalizeCountryCode (h : Host) (value : String) : String :=
  let normalized := h.upper (strip value)
  if normalized.length = 2 ∧ normalized.toList.all (·.isAlpha) ∧ normalized ≠ "ZZ" then normalized
  else "XX"

def firstPresent (values : List (Option String)) : Option String :=
  (values.find? (fun value => value.getD "" ≠ "")).join

def proxyMetadata (h : Host) (proxy : Proxy) (item : Metadata) : Metadata :=
  { item with
    sourceIp := (firstPresent [proxy.sourceIp]).or item.sourceIp
    sourceAddress := (firstPresent [proxy.sourceAddress, some proxy.server]).or item.sourceAddress
    sourcePort := some proxy.port
    countryCode := ((firstPresent [some proxy.countryCode]).map (normalizeCountryCode h)).or
      item.countryCode
    countryName := (firstPresent [some proxy.countryName]).or item.countryName
    provinceName := (firstPresent [some proxy.provinceName]).or item.provinceName
    cityName := (firstPresent [some proxy.cityName]).or item.cityName }

def saveProxyMetadata (h : Host) (userId : String) (proxy : Proxy) (s : Node) : Node :=
  { s with users := (s.users.setDefault userId {}).modify userId (proxyMetadata h proxy) }

def clearProxyMetadata (item : Metadata) : Metadata :=
  { item with
    sourceIp := none
    sourceAddress := none
    sourcePort := none
    countryCode := none
    countryName := none
    provinceName := none
    cityName := none }

def addDirectOutbound (userId : String) (s : Node) : Node :=
  if s.outbounds.any (·.tag = outboundTag userId) then s
  else { s with outbounds := s.outbounds ++ [{ type := .direct, tag := outboundTag userId }] }

def addRoute (userId : String) (s : Node) : Node :=
  if s.rules.any (·.outbound = some (outboundTag userId)) then s else insertRoute userId s

/-- Without `replaceExisting` only what is missing is added; a direct task replaces the binding. -/
def setDirectBinding (userId : String) (replaceExisting : Bool) (s : Node) : Node :=
  if replaceExisting then
    addRoute userId (addDirectOutbound userId
      { s with
        outbounds := s.outbounds.filter (·.tag ≠ outboundTag userId)
        rules := withoutRoute userId s.rules
        users := s.users.modify userId clearProxyMetadata })
  else addRoute userId (addDirectOutbound userId s)

inductive Mode
  | selector
  | urltest
  deriving DecidableEq, Repr

structure Balancing where
  mode : Mode := .urltest
  healthCheckUrl : String := "https://www.gstatic.com/generate_204"
  interval : String := "3m"
  tolerance : Nat := 50
  deriving DecidableEq, Repr

structure Upstream where
  server : String
  port : Nat
  username : Option String
  password : Option String
  deriving DecidableEq, Repr

def Upstream.identity (h : Host) (entry : Upstream) : Identity :=
  proxyIdentity h entry.server entry.port entry.username entry.password

def upstream (proxy : Proxy) : Upstream :=
  ⟨proxyServer proxy, proxy.port, proxy.username, proxy.password⟩

def normalizeProxy (h : Host) (outbounds : List Outbound) (userId : String) (batch : List Identity)
    (index : Nat) (proxy : Proxy) : Except String Upstream := do
  let entry := upstream proxy
  if entry.server = "" then .error ("proxy #" ++ toString index ++ " 缺少上游服务器地址")
  else if entry.port < 1 ∨ 65535 < entry.port then .error ("proxy #" ++ toString index ++ " 端口超出范围")
  else
    assertProxyAvailable h outbounds userId (entry.identity h)
    if entry.identity h ∈ batch then .error "当前已有这条住宅IP的连接了" else .ok entry

def normalizeProxies (h : Host) (outbounds : List Outbound) (userId : String) :
    Nat → List Identity → List Proxy → Except String (List Upstream)
  | _, _, [] => .ok []
  | index, batch, proxy :: proxies => do
    let entry ← normalizeProxy h outbounds userId batch index proxy
    let entries ← normalizeProxies h outbounds userId (index + 1)
      (entry.identity h :: batch) proxies
    .ok (entry :: entries)

def memberTag (userId : String) (index : Nat) : String :=
  outboundTag userId ++ "-" ++ toString index

def memberOutbounds (userId : String) : Nat → List Upstream → List Outbound
  | _, [] => []
  | index, entry :: entries =>
    socksOutbound (memberTag userId index) entry.server entry.port entry.username entry.password ::
      memberOutbounds userId (index + 1) entries

def aggregateOutbound (userId : String) (balancing : Balancing)
    (memberTags : List String) : Outbound :=
  match balancing.mode with
  | .urltest =>
    { type := .urltest, tag := outboundTag userId, outbounds := memberTags,
      url := some balancing.healthCheckUrl,
      interval := some balancing.interval, tolerance := some balancing.tolerance }
  | .selector =>
    { type := .selector, tag := outboundTag userId, outbounds := memberTags,
      default := memberTags.head? }

def isCleared (userId tag : String) : Bool :=
  startsWith tag (outboundTag userId ++ "-") || tag = outboundTag userId

def balancedOutbounds (userId : String) (balancing : Balancing) (entries : List Upstream)
    (outbounds : List Outbound) : List Outbound :=
  let members := memberOutbounds userId 0 entries
  outbounds.filter (fun outbound => !isCleared userId outbound.tag) ++ members ++
    [aggregateOutbound userId balancing (members.map (·.tag))]

def bindMultipleProxies (h : Host) (userId : String) (proxies : List Proxy) (balancing : Balancing)
    (s : Node) :
    Except String Node :=
  match proxies with
  | first :: _ :: _ =>
    if userExists s.inbounds s.users userId = false then .error ("user not found: " ++ userId)
    else do
      let entries ← normalizeProxies h s.outbounds userId 0 [] proxies
      .ok (saveProxyMetadata h userId first (rebuildRoute userId
        { s with outbounds := balancedOutbounds userId balancing entries s.outbounds }))
  | _ => .error "at least 2 proxies are required for load balancing"

theorem tag_socksOutbound (tag server : String) (port : Nat) (username password : Option String) :
    (socksOutbound tag server port username password).tag = tag := by
  unfold socksOutbound
  split_ifs <;> rfl

variable {u : String}

theorem registryUser_modify {users : Users} {f : Metadata → Metadata} (hf : f {} = {}) :
    registryUser (users.modify u f) u = f (registryUser users u) := by
  rw [registryUser, Dict.get?_modify, if_pos rfl, registryUser]
  cases users.get? u with
  | none => exact hf.symm
  | some m => rfl

theorem registryUser_update (users : Users) (u : String) (f : Metadata → Metadata) :
    registryUser ((users.setDefault u {}).modify u f) u = f (registryUser users u) := by
  rw [registryUser, Dict.get?_modify, if_pos rfl, Dict.get?_setDefault, if_pos rfl, registryUser]
  rfl

theorem registryUser_saveProxyMetadata (h : Host) (u : String) (proxy : Proxy) (s : Node) :
    registryUser (saveProxyMetadata h u proxy s).users u =
    proxyMetadata h proxy (registryUser s.users u) :=
  registryUser_update s.users u (proxyMetadata h proxy)

theorem socksUsername_saveProxyMetadata (h : Host) (u : String) (proxy : Proxy) (s : Node) :
    (registryUser (saveProxyMetadata h u proxy s).users u).socksUsername =
    (registryUser s.users u).socksUsername := by
  rw [registryUser_saveProxyMetadata, proxyMetadata]

theorem installedNames_saveProxyMetadata (h : Host) (u : String) (proxy : Proxy) (s : Node) :
    installedNames (saveProxyMetadata h u proxy s) u = installedNames s u :=
  @installedNames_congr s (saveProxyMetadata h u proxy s) u rfl
    (socksUsername_saveProxyMetadata h u proxy s)

theorem rules_saveProxyMetadata (h : Host) (u : String) (proxy : Proxy) (s : Node) :
    (saveProxyMetadata h u proxy s).rules = s.rules := rfl

theorem managedRules_saveProxyMetadata (h : Host) (u : String) (proxy : Proxy) (s : Node) :
    managedRules (registryUser (saveProxyMetadata h u proxy s).users u) =
    managedRules (registryUser s.users u) := by
  rw [registryUser_saveProxyMetadata]
  rfl

theorem setDirectBinding_false (u : String) (s : Node) :
    (setDirectBinding u false s).inbounds = s.inbounds ∧
    (setDirectBinding u false s).users = s.users ∧
      ((setDirectBinding u false s).outbounds = s.outbounds ∨
        (setDirectBinding u false s).outbounds = s.outbounds ++
        [{ type := .direct, tag := outboundTag u }]) := by
  have hroute : ∀ t : Node, (addRoute u t).inbounds = t.inbounds ∧ (addRoute u t).users = t.users ∧
      (addRoute u t).outbounds = t.outbounds := by
    intro t
    unfold addRoute
    split_ifs <;> exact ⟨rfl, rfl, rfl⟩
  obtain ⟨hin, husers, hout⟩ := hroute (addDirectOutbound u s)
  rw [setDirectBinding, if_neg Bool.false_ne_true, hin, husers, hout, addDirectOutbound]
  split_ifs
  · exact ⟨rfl, rfl, Or.inl rfl⟩
  · exact ⟨rfl, rfl, Or.inr rfl⟩

theorem withoutRoute_any (u : String) (rules : List Rule) :
    (withoutRoute u rules).any (·.outbound = some (outboundTag u)) = false := by
  simp [withoutRoute]

theorem addRoute_rebuild (u : String) (s : Node) :
    addRoute u { s with rules := withoutRoute u s.rules } = rebuildRoute u s := by
  rw [addRoute, if_neg (by simp [withoutRoute_any]), rebuildRoute]

variable {h : Host} {outbounds : List Outbound}

theorem assertProxyAvailable_ok {identity : Identity} {x : Unit}
    (hok : assertProxyAvailable h outbounds u identity = .ok x) :
    identity ∉ configuredProxyIdentities h outbounds u := by
  unfold assertProxyAvailable at hok
  split at hok
  · cases hok
  · assumption

def withProxyOutbound (u : String) (proxy : Proxy) (s : Node) : Node :=
  { s with
    outbounds := s.outbounds.filter (·.tag ≠ outboundTag u) ++
      [socksOutbound (outboundTag u) (proxyServer proxy) proxy.port proxy.username proxy.password] }

variable {proxy : Proxy}

theorem setProxyBinding_ok {s s' : Node} (hok : setProxyBinding h u proxy s = .ok s') :
    s' = rebuildRoute u (withProxyOutbound u proxy s) ∧ proxyServer proxy ≠ "" ∧
      proxyIdentity h (proxyServer proxy) proxy.port proxy.username proxy.password ∉
        configuredProxyIdentities h s.outbounds u := by
  unfold setProxyBinding at hok
  dsimp only at hok
  split_ifs at hok with hserver hport
  obtain ⟨_, havail, hok⟩ := bind_eq_ok hok
  obtain ⟨_, _, hok⟩ := bind_eq_ok hok
  cases hok
  exact ⟨rfl, hserver, assertProxyAvailable_ok havail⟩

variable {batch : List Identity}

theorem normalizeProxy_ok {index : Nat} {entry : Upstream}
    (hok : normalizeProxy h outbounds u batch index proxy = .ok entry) :
    entry = upstream proxy ∧ entry.server ≠ "" ∧
    entry.identity h ∉ configuredProxyIdentities h outbounds u ∧
      entry.identity h ∉ batch := by
  unfold normalizeProxy at hok
  by_cases hserver : (upstream proxy).server = ""
  · cases (if_pos hserver).symm.trans hok
  rw [if_neg hserver] at hok
  by_cases hport : (upstream proxy).port < 1 ∨ 65535 < (upstream proxy).port
  · cases (if_pos hport).symm.trans hok
  rw [if_neg hport] at hok
  obtain ⟨_, havail, hok⟩ := bind_eq_ok hok
  split_ifs at hok with hbatch
  cases hok
  exact ⟨rfl, hserver, assertProxyAvailable_ok havail, hbatch⟩

variable {proxies : List Proxy}

theorem normalizeProxies_map {index : Nat} {entries : List Upstream}
    (hok : normalizeProxies h outbounds u index batch proxies = .ok entries) :
    entries = proxies.map upstream := by
  induction proxies generalizing index batch entries with
  | nil =>
    cases hok
    rfl
  | cons proxy proxies ih =>
    obtain ⟨entry, hentry, hok⟩ := bind_eq_ok hok
    obtain ⟨rest, hrest, hok⟩ := bind_eq_ok hok
    cases hok
    rw [(normalizeProxy_ok hentry).1, ih hrest, List.map_cons]

theorem bindMultipleProxies_ok {balancing : Balancing} {s s' : Node}
    (hok : bindMultipleProxies h u proxies balancing s = .ok s') :
    ∃ first entries, normalizeProxies h s.outbounds u 0 [] proxies = .ok entries ∧
      userExists s.inbounds s.users u = true ∧
      s' = saveProxyMetadata h u first
        (rebuildRoute u { s with
          outbounds := balancedOutbounds u balancing entries s.outbounds }) := by
  unfold bindMultipleProxies at hok
  split at hok
  next first second rest =>
    split_ifs at hok with hexists
    obtain ⟨entries, hentries, hok⟩ := bind_eq_ok hok
    cases hok
    exact ⟨first, entries, hentries, by simpa using hexists, rfl⟩
  next => cases hok

end NodeManager.Bindings
