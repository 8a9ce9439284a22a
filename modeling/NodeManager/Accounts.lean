import NodeManager.Credentials

namespace NodeManager.Accounts

open Text Singbox Identities Occurrences Outcomes DenyRules Bindings Credentials

inductive Protocol
  | vless
  | vmess
  | socks
  | trojan
  deriving DecidableEq, Repr

/-- A creation request, with the clock, the random UUID and password, and what the readiness check
and the link renderer say. -/
structure CreateUser where
  userId : String
  protocols : List Protocol
  userUuid : Option String := none
  socksUsername : Option String := none
  socksPassword : Option String := none
  proxy : Option Proxy := none
  trafficLimitBytes : Option Nat := none
  maxSourceIps : Option Nat := none
  expiresAt : Option Int := none
  now : Int := 0
  generatedUuid : String := ""
  generatedPassword : String := ""
  readinessError : Option String := none
  linkError : Option String := none
  deriving DecidableEq, Repr

def defaultUserLifetime : Int := 30 * day

namespace CreateUser

def effectiveUuid (request : CreateUser) : String :=
  if request.userUuid.getD "" ≠ "" then request.userUuid.getD "" else request.generatedUuid

def effectiveSocksUsername (request : CreateUser) : String :=
  if request.socksUsername.getD "" ≠ "" then request.socksUsername.getD "" else request.userId

def effectiveSocksPassword (request : CreateUser) : String :=
  if request.socksPassword.getD "" ≠ "" then request.socksPassword.getD ""
  else request.generatedPassword

def effectiveExpiresAt (request : CreateUser) : Int :=
  request.expiresAt.getD (request.now + defaultUserLifetime)

def metadata (request : CreateUser) : Metadata :=
  { socksUsername := if .socks ∈ request.protocols then
    some request.effectiveSocksUsername else none
    createdAt := some request.now
    expiresAt := some request.effectiveExpiresAt
    trafficLimitBytes := positivePolicyValue request.trafficLimitBytes
    maxSourceIps := positivePolicyValue request.maxSourceIps }

def entry (request : CreateUser) : Protocol → InboundUser
  | .vless =>
    { login := .name (authName request.userId), uuid := some request.effectiveUuid,
      flow := some "xtls-rprx-vision" }
  | .vmess => { login := .name (authName request.userId), uuid := some request.effectiveUuid }
  | .trojan => { login := .name (authName request.userId), password := some request.effectiveUuid }
  | .socks =>
    { login := .username request.effectiveSocksUsername,
      password := some request.effectiveSocksPassword }

end CreateUser

def protocolTag (h : Host) : Protocol → String
  | .vless => h.vlessTag
  | .vmess => h.vmessTag
  | .trojan => h.trojanTag
  | .socks => h.socksTag

def appendUser (tag : String) (user : InboundUser) : List Inbound → Except String (List Inbound)
  | [] => .error ("required inbound not found: " ++ tag)
  | inbound :: inbounds =>
    if inbound.tag = tag then .ok ({ inbound with users := inbound.users ++ [user] } :: inbounds)
    else do .ok (inbound :: (← appendUser tag user inbounds))

def installEach (h : Host) (request : CreateUser) :
    List Protocol → List Inbound → Except String (List Inbound)
  | [], inbounds => .ok inbounds
  | protocol :: rest, inbounds =>
    if protocol ∈ request.protocols then do
      installEach h request rest (← appendUser (protocolTag h protocol)
        (request.entry protocol) inbounds)
    else installEach h request rest inbounds

def installUser (h : Host) (request : CreateUser) (inbounds : List Inbound) :
    Except String (List Inbound) :=
  installEach h request [.vless, .vmess, .trojan, .socks] inbounds

def bindCreated (h : Host) (request : CreateUser) (s : Node) : Except String Node :=
  match request.proxy with
  | some proxy =>
    setProxyBinding h request.userId proxy (saveProxyMetadata h request.userId proxy s)
  | none => .ok (setDirectBinding request.userId false s)

def assertUpstreamFree (h : Host) (outbounds : List Outbound) : Option Proxy → Except String Unit
  | none => .ok ()
  | some proxy =>
    assertProxyAvailable h outbounds ""
      (proxyIdentity h proxy.server proxy.port proxy.username proxy.password)

def raised : Option String → Except String Unit
  | none => .ok ()
  | some message => .error message

def createUser (h : Host) (request : CreateUser) (s : Node) : Except String Node := do
  if request.userUuid.getD "" ≠ "" ∧ parseUuid (request.userUuid.getD "") = none then
    .error ("invalid uuid from control plane: " ++ request.userUuid.getD "")
  else if request.effectiveExpiresAt ≤ request.now then .error "expiresAt must be in the future"
  else
    raised request.readinessError
    assertUpstreamFree h s.outbounds request.proxy
    if userExists s.inbounds s.users request.userId then
      .error ("user already exists: " ++ request.userId)
    else if .socks ∈ request.protocols ∧
      authIdentifierExists s.inbounds request.effectiveSocksUsername then
      .error ("SOCKS username already exists: " ++ request.effectiveSocksUsername)
    else
      let inbounds ← installUser h request s.inbounds
      raised request.linkError
      bindCreated h request { s with
        inbounds := inbounds, users := s.users.set request.userId request.metadata }

def rotateWhen (h : Host) (userId : String) (newUuid : Option String) (s : Node) :
    Except String Node :=
  if newUuid.getD "" ≠ "" then rotateProtocolCredentials h userId (newUuid.getD "") s else .ok s

def syncWhen (h : Host) (userId : String) (requested : Bool) (username password : String)
    (s : Node) :
    Except String Node :=
  if requested then updateSocksCredentials h userId username password s else .ok s

def rotateFor (h : Host) (userId : String) (proxy : Proxy) (syncSocksCredentials : Bool)
    (newUuid : Option String) (s : Node) : Except String Node := do
  let s ← rotateWhen h userId newUuid s
  syncWhen h userId syncSocksCredentials (proxy.username.getD "") (proxy.password.getD "") s

def bindProxy (h : Host) (userId : String) (proxy : Proxy) (syncSocksCredentials : Bool)
    (newUuid : Option String) (s : Node) : Except String Node :=
  if userExists s.inbounds s.users userId = false then .error ("user not found: " ++ userId)
  else do
    let s ← rotateFor h userId proxy syncSocksCredentials newUuid s
    setProxyBinding h userId proxy (saveProxyMetadata h userId proxy s)

def direct (userId : String) (s : Node) : Except String Node :=
  if userExists s.inbounds s.users userId = false then .error "user not found"
  else .ok (setDirectBinding userId true s)

def credentials (h : Host) (userId : String) (uuid socksUsername socksPassword : Option String)
    (s : Node) :
    Except String Node :=
  if uuid.getD "" = "" ∧ socksUsername.getD "" = "" then .error "credentials are required"
  else if (socksUsername.getD "" = "") ≠ (socksPassword.getD "" = "") then
    .error "both SOCKS credentials are required"
  else if userExists s.inbounds s.users userId = false then .error "user not found"
  else do
    let s ← rotateWhen h userId uuid s
    syncWhen h userId (socksUsername.getD "" ≠ "") (socksUsername.getD "") (socksPassword.getD "") s

def withoutUsers (names : List String) (inbounds : List Inbound) : List Inbound :=
  inbounds.map (fun inbound => { inbound with
    users := inbound.users.filter (fun user => !user.carries names) })

def deleteUser (userId : String) (s : Node) : Node :=
  let (rules, metadata) := removeExpirationRule s.rules (registryUser s.users userId)
  { s with
    inbounds := withoutUsers (userAuthNames s.users userId) s.inbounds
    outbounds := s.outbounds.filter (·.tag ≠ outboundTag userId)
    rules := withoutRoute userId (removeManagedEnforcementRules rules metadata)
    users := s.users.erase userId }

def socksUsernames (h : Host) (inbounds : List Inbound) : List String :=
  (inbounds.filter (·.tag = h.socksTag)).flatMap
    (fun inbound => inbound.users.filterMap (·.username))

def migratedId (usersByName : List String) (username : String) : Option String :=
  (extractUserId username).filter (fun userId => userId ≠ "" ∧ userId ∉ usersByName)

def migrateEntry (h : Host) (usersByName : List String) (tag : String) (user : InboundUser) :
    InboundUser :=
  if tag = h.socksTag then
    match user.username.bind (migratedId usersByName) with
    | some userId => { user with login := .username userId }
    | none => user
  else user

def migrateRow (users : Users) (userId : String) : Users :=
  (users.setDefault userId {}).modify userId (fun item =>
    if item.socksUsername.getD "" = "" ∨ item.socksUsername = some (authName userId) then
      { item with socksUsername := some userId }
    else item)

def migrateLegacySocksUsernames (h : Host) (s : Node) : Node :=
  let usersByName := socksUsernames h s.inbounds
  let migrated := usersByName.filterMap (migratedId usersByName)
  let replace := fun value => if (extractUserId value).any (· ∈ migrated) then
    dropPrefix value userPrefix else value
  { s with
    inbounds := mapUsers (migrateEntry h usersByName) s.inbounds
    users := migrated.foldl migrateRow s.users
    rules := s.rules.map (renameRule (List.map replace)) }

def bindingMissing (s : Node) (userId : String) : Bool :=
  !(s.outbounds.any (·.tag = outboundTag userId)) ||
    !(s.rules.any (·.outbound = some (outboundTag userId)))

def ensureUserOutbounds (order : List String) (s : Node) : Node :=
  (order.filter (fun userId => userId ∈ discoverUserIds s.inbounds s.users ∧
    userId ∉ s.expiredUsers ∧
    bindingMissing s userId)).foldl (fun s userId => setDirectBinding userId false s) s

variable {inbounds inbounds' : List Inbound} {t : String} {e : InboundUser}

theorem entry_appendUser {tag : String} {user : InboundUser}
    (hok : appendUser tag user inbounds = .ok inbounds') :
    Entry inbounds' t e ↔ Entry inbounds t e ∨ (t = tag ∧ e = user) := by
  induction inbounds generalizing inbounds' with
  | nil => cases hok
  | cons inbound inbounds ih =>
    rw [appendUser] at hok
    split_ifs at hok with htag
    · cases hok
      subst htag
      simp only [Entry, List.mem_cons, exists_eq_or_imp, List.mem_append,
        List.not_mem_nil, or_false]
      constructor
      · rintro (⟨ht, he | he⟩ | hrest)
        · exact Or.inl (Or.inl ⟨ht, he⟩)
        · exact Or.inr ⟨ht.symm, he⟩
        · exact Or.inl (Or.inr hrest)
      · rintro ((⟨ht, he⟩ | hrest) | ⟨ht, he⟩)
        · exact Or.inl ⟨ht, Or.inl he⟩
        · exact Or.inr hrest
        · exact Or.inl ⟨ht.symm, Or.inr he⟩
    · obtain ⟨rest, hrest, heq⟩ := bind_eq_ok hok
      cases heq
      have hih := ih hrest
      simp only [Entry, List.mem_cons, exists_eq_or_imp] at hih ⊢
      rw [hih, or_assoc]

variable {h : Host} {request : CreateUser}

theorem entry_installEach {protocols : List Protocol}
    (hok : installEach h request protocols inbounds = .ok inbounds') :
    Entry inbounds' t e ↔ Entry inbounds t e ∨
      ∃ p ∈ protocols, p ∈ request.protocols ∧ t = protocolTag h p ∧ e = request.entry p := by
  induction protocols generalizing inbounds with
  | nil =>
    cases hok
    simp
  | cons p protocols ih =>
    rw [installEach] at hok
    split_ifs at hok with hp
    · obtain ⟨mid, hmid, hrest⟩ := bind_eq_ok hok
      rw [ih hrest, entry_appendUser hmid]
      simp [hp, or_assoc]
    · rw [ih hok]
      simp [hp]

theorem entry_installUser (hok : installUser h request inbounds = .ok inbounds') :
    Entry inbounds' t e ↔ Entry inbounds t e ∨ ∃ p ∈ request.protocols, t = protocolTag h p ∧
    e = request.entry p := by
  have hall : ∀ p : Protocol, p ∈ [Protocol.vless, .vmess, .trojan, .socks] := by
    intro p
    cases p <;> simp
  rw [entry_installEach hok]
  simp [hall]

theorem entry_withoutUsers {names : List String} :
    Entry (withoutUsers names inbounds) t e ↔ Entry inbounds t e ∧ e.carries names = false := by
  constructor
  · rintro ⟨inbound', hi', htag, he⟩
    obtain ⟨inbound, hi, rfl⟩ := List.mem_map.mp hi'
    obtain ⟨hmem, hc⟩ := List.mem_filter.mp he
    exact ⟨⟨inbound, hi, htag, hmem⟩, by simpa using hc⟩
  · rintro ⟨⟨inbound, hi, htag, he⟩, hc⟩
    exact ⟨_, List.mem_map_of_mem hi, htag, List.mem_filter.mpr ⟨he, by simp [hc]⟩⟩

variable {s s' : Node}

theorem createUser_ok (hok : createUser h request s = .ok s') :
    userExists s.inbounds s.users request.userId = false ∧
      (.socks ∈ request.protocols → authIdentifierExists s.inbounds
        request.effectiveSocksUsername = false) ∧
      ∃ inbounds, installUser h request s.inbounds = .ok inbounds ∧
        assertUpstreamFree h s.outbounds request.proxy = .ok () ∧
        bindCreated h request { s with
          inbounds := inbounds, users := s.users.set request.userId request.metadata } =
          .ok s' := by
  unfold createUser at hok
  by_cases huuid : request.userUuid.getD "" ≠ "" ∧ parseUuid (request.userUuid.getD "") = none
  · cases (if_pos huuid).symm.trans hok
  rw [if_neg huuid] at hok
  by_cases hexpires : request.effectiveExpiresAt ≤ request.now
  · cases (if_pos hexpires).symm.trans hok
  rw [if_neg hexpires] at hok
  obtain ⟨_, _, hok⟩ := bind_eq_ok hok
  obtain ⟨_, hfree, hok⟩ := bind_eq_ok hok
  split_ifs at hok with hexists hsocks
  obtain ⟨inbounds, hinstall, hok⟩ := bind_eq_ok hok
  obtain ⟨_, _, hok⟩ := bind_eq_ok hok
  refine ⟨by simpa using hexists, ?_, inbounds, hinstall, hfree, hok⟩
  intro hp
  by_contra ha
  exact hsocks ⟨hp, by simpa using ha⟩

variable {u : String} {newUuid : Option String}

theorem bindProxy_ok {proxy : Proxy} {sync : Bool}
    (hok : bindProxy h u proxy sync newUuid s = .ok s') :
    userExists s.inbounds s.users u = true ∧ ∃ s₁ s₂, rotateWhen h u newUuid s = .ok s₁ ∧
      syncWhen h u sync (proxy.username.getD "") (proxy.password.getD "") s₁ = .ok s₂ ∧
      setProxyBinding h u proxy (saveProxyMetadata h u proxy s₂) = .ok s' := by
  unfold bindProxy at hok
  split_ifs at hok with hexists
  obtain ⟨s₂, hfor, hok⟩ := bind_eq_ok hok
  obtain ⟨s₁, hrotate, hsync⟩ := bind_eq_ok hfor
  exact ⟨by simpa using hexists, s₁, s₂, hrotate, hsync, hok⟩

theorem direct_ok (hok : direct u s = .ok s') :
    userExists s.inbounds s.users u = true ∧ s' = rebuildRoute u { s with
        outbounds := s.outbounds.filter (·.tag ≠ outboundTag u) ++
          [{ type := .direct, tag := outboundTag u }]
        users := s.users.modify u clearProxyMetadata } := by
  unfold direct at hok
  split_ifs at hok with hexists
  cases hok
  refine ⟨by simpa using hexists, ?_⟩
  rw [setDirectBinding, if_pos rfl, addDirectOutbound, if_neg (by simp), ← addRoute_rebuild]

theorem credentials_ok {uuid socksUsername socksPassword : Option String}
    (hok : credentials h u uuid socksUsername socksPassword s = .ok s') :
    userExists s.inbounds s.users u = true ∧ ∃ s₁, rotateWhen h u uuid s = .ok s₁ ∧
      syncWhen h u (socksUsername.getD "" ≠ "") (socksUsername.getD "") (socksPassword.getD "") s₁ =
      .ok s' := by
  unfold credentials at hok
  split_ifs at hok with _ _ hexists
  obtain ⟨s₁, hrotate, hok⟩ := bind_eq_ok hok
  exact ⟨by simpa using hexists, s₁, hrotate, hok⟩

theorem rotateWhen_ok (hok : rotateWhen h u newUuid s = .ok s') :
    s' = s ∨ ∃ parsed, parseUuid (newUuid.getD "") = some parsed ∧ isVersion4 parsed = true ∧
      uuidTaken h (userAuthNames s.users u) (formatUuid parsed) s.inbounds = false ∧
      s' = { s with
        inbounds := rotateUser h (userAuthNames s.users u) (formatUuid parsed) s.inbounds } := by
  unfold rotateWhen at hok
  split_ifs at hok
  · exact Or.inr (rotateProtocolCredentials_ok hok)
  · cases hok
    exact Or.inl rfl

theorem syncWhen_ok {requested : Bool} {username password : String}
    (hok : syncWhen h u requested username password s = .ok s') :
    s' = s ∨ (username ≠ "" ∧ startsWith username userPrefix = false ∧ requested = true ∧
      s' = renameUser h u username password s ∧
      replacedNames h (userAuthNames s.users u) s.inbounds ≠ [] ∧
      usernameTaken h (userAuthNames s.users u) username s.inbounds = false) := by
  unfold syncWhen at hok
  split_ifs at hok with hrequested
  · obtain ⟨hne, hreserved, hcase⟩ := updateSocksCredentials_ok hok
    obtain ⟨rfl, _⟩ | ⟨hs', hreplaced, htaken⟩ := hcase
    · exact Or.inl rfl
    · exact Or.inr ⟨hne, hreserved, hrequested, hs', hreplaced, htaken⟩
  · cases hok
    exact Or.inl rfl

theorem removeExpirationRule_eq_diff (rules : List Rule) (m : Metadata) :
    (removeExpirationRule rules m).1 = rules.diff (managedExpirationRules m) := by
  unfold removeExpirationRule managedExpirationRules
  cases hl : m.expirationAuthUsers with
  | none => rfl
  | some raw =>
    cases raw with
    | nil => rfl
    | cons n ns =>
      rw [List.diff_cons, List.diff_nil]

theorem rules_deleteUser (u : String) (s : Node) :
    (deleteUser u s).rules = (s.rules.diff (managedExpirationRules (registryUser s.users u))).filter
    (fun rule =>
      rule ∉ managedEnforcementRules (registryUser s.users u) ∧
        rule.outbound ≠ some (outboundTag u)) := by
  have hrules := removeExpirationRule_eq_diff s.rules (registryUser s.users u)
  unfold deleteUser
  dsimp only [removeExpirationRule] at hrules ⊢
  rw [hrules, removeManagedEnforcementRules, if_neg Bool.false_ne_true, removeAllBut_none,
    withoutRoute, List.filter_filter]
  apply List.filter_congr
  intro rule _
  rw [Bool.decide_and, Bool.and_comm]
  rfl

end NodeManager.Accounts
