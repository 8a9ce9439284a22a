import NodeManager.Accounts

namespace NodeManager.BlockedRebinding

open Text Singbox Identities Occurrences Outcomes DenyRules Bindings Accounts

def rejectedFirst (rules : List Rule) (name : String) : Bool :=
  (rules.find? (·.matchesAlone name)).any (·.action = .reject)

/-- What rebuilds the route of a user; `repair` is the loop body of `ensure_user_outbounds`. -/
inductive Rebinding
  | bindProxy (proxy : Proxy) (syncSocksCredentials : Bool) (newUuid : Option String)
  | bindMultipleProxies (proxies : List Proxy) (balancing : Balancing)
  | direct
  | repair
  deriving DecidableEq, Repr

def rebind (h : Host) (userId : String) : Rebinding → Node → Except String Node
  | .bindProxy proxy sync newUuid, s => bindProxy h userId proxy sync newUuid s
  | .bindMultipleProxies proxies balancing, s => bindMultipleProxies h userId proxies balancing s
  | .direct, s => direct userId s
  | .repair, s => .ok (setDirectBinding userId false s)

def rotated (h : Host) (userId : String) : Rebinding → Node → Except String Node
  | .bindProxy proxy sync newUuid, s => rotateFor h userId proxy sync newUuid s
  | _, s => .ok s

def fromFirstMatch (s : Node) (userId name : String) : List Rule :=
  (withoutRoute userId s.rules).dropWhile (fun rule => !rule.matchesAlone name)

/-- The first match rejects, and it or a later rule is identified by the expiration or enforcement
lists of the row. -/
def HeldInFront (s : Node) (userId name : String) : Prop :=
  (fromFirstMatch s userId name).head?.any (·.action = .reject) = true ∧
    (fromFirstMatch s userId name).any (· ∈ managedRules (registryUser s.users userId)) = true

instance (s : Node) (userId name : String) : Decidable (HeldInFront s userId name) := by
  unfold HeldInFront; infer_instance

def keepsRoute (s : Node) (userId : String) : Rebinding → Bool
  | .repair => s.rules.any (·.outbound = some (outboundTag userId))
  | _ => false

variable {s : Node} {u n : String}

theorem matchesAlone_routeRule (hn : n ∈ installedNames s u) :
    (routeRule s u).matchesAlone n = true := by
  have hmem : n ∈ sortedSet (routeAuthNames s.inbounds s.users u) :=
    mem_sortedSet.mpr (installed_mem_routeAuthNames hn)
  simpa [routeRule, Rule.matchesAlone, Rule.route, Rule.names] using hmem

theorem rejectedFirst_insertRoute (hn : n ∈ installedNames s u) :
    rejectedFirst (insertRoute u s).rules n = true ↔
      (s.rules.dropWhile (fun rule => !rule.matchesAlone n)).head?.any (·.action = .reject) = true ∧
        (s.rules.dropWhile (fun rule => !rule.matchesAlone n)).any
          (· ∈ managedRules (registryUser s.users u)) = true := by
  unfold rejectedFirst insertRoute afterManagedEnforcementRules
  rw [@find?_insertAt _ (fun rule => rule.matchesAlone n) _ (routeRule s u) s.rules
    (matchesAlone_routeRule hn), find?_take_afterLast]
  have hroute : (routeRule s u).action ≠ .reject := by simp [routeRule, Rule.route]
  split_ifs with hq
  · cases hd : (s.rules.dropWhile (fun rule => !rule.matchesAlone n)).head? with
    | none =>
      rw [List.head?_eq_none_iff] at hd
      simp [hd] at hq
    | some rule => simp [hq]
  · simp [hroute, hq]

theorem rejectedFirst_rebuildRoute {t : Node} (hin : t.inbounds = s.inbounds)
    (hrules : t.rules = s.rules) (hsocks : (registryUser t.users u).socksUsername =
      (registryUser s.users u).socksUsername)
    (hmanaged : managedRules (registryUser t.users u) = managedRules (registryUser s.users u))
    (hn : n ∈ installedNames s u) :
    rejectedFirst (rebuildRoute u t).rules n = true ↔ HeldInFront s u n := by
  have hnt : n ∈ installedNames { t with rules := withoutRoute u t.rules } u := by
    rw [installedNames] at hn ⊢
    rw [userAuthNames_congr hsocks, hin]
    exact hn
  rw [rebuildRoute, rejectedFirst_insertRoute hnt, HeldInFront, fromFirstMatch, hrules, hmanaged]

theorem repair_missing (hmissing : s.rules.any (·.outbound = some (outboundTag u)) = false) :
    ∃ outbounds, setDirectBinding u false s = rebuildRoute u { s with outbounds := outbounds } := by
  have hrules : withoutRoute u s.rules = s.rules := by
    apply List.filter_eq_self.mpr
    intro rule hr
    have := List.any_eq_false.mp hmissing rule hr
    simpa using this
  rw [setDirectBinding, if_neg (by simp), addDirectOutbound]
  split_ifs
  · refine ⟨s.outbounds, ?_⟩
    rw [← addRoute_rebuild, hrules]
  · refine ⟨s.outbounds ++ [{ type := .direct, tag := outboundTag u }], ?_⟩
    rw [← addRoute_rebuild, hrules]

theorem repair_present (hpresent : s.rules.any (·.outbound = some (outboundTag u)) = true) :
    (setDirectBinding u false s).rules = s.rules ∧
    (setDirectBinding u false s).inbounds = s.inbounds ∧
      (setDirectBinding u false s).users = s.users := by
  rw [setDirectBinding, if_neg (by simp), addDirectOutbound]
  split_ifs
  · rw [addRoute, if_pos hpresent]
    exact ⟨rfl, rfl, rfl⟩
  · rw [addRoute, if_pos hpresent]
    exact ⟨rfl, rfl, rfl⟩

/-- Rebinding a blocked user keeps its reject first exactly when, where the route is rebuilt, every
installed name is held in front by a rule that the expiration or enforcement lists identify. -/
theorem rebind_keeps_reject_iff {h : Host} {u : String} {op : Rebinding} {s s' : Node}
    (hok : rebind h u op s = .ok s')
    (hfirst : ∀ n ∈ installedNames s u, rejectedFirst s.rules n = true) :
    (∀ n ∈ installedNames s' u, rejectedFirst s'.rules n = true) ↔
      keepsRoute s u op = true ∨
        ∀ n ∈ installedNames (orUnchanged (rotated h u op s) s) u,
        HeldInFront (orUnchanged (rotated h u op s) s) u n := by
  have hmain : ∀ {t s₁ : Node}, t.inbounds = s₁.inbounds → t.rules = s₁.rules →
      (registryUser t.users u).socksUsername = (registryUser s₁.users u).socksUsername →
      managedRules (registryUser t.users u) = managedRules (registryUser s₁.users u) →
      ((∀ n ∈ installedNames (rebuildRoute u t) u,
        rejectedFirst (rebuildRoute u t).rules n = true) ↔
        ∀ n ∈ installedNames s₁ u, HeldInFront s₁ u n) := by
    intro t s₁ hin hrules hsocks hmanaged
    have hnames : installedNames (rebuildRoute u t) u = installedNames s₁ u :=
      installedNames_congr hin hsocks
    rw [hnames]
    exact forall₂_congr (fun n hn => rejectedFirst_rebuildRoute hin hrules hsocks hmanaged hn)
  cases op with
  | bindProxy proxy sync newUuid =>
    obtain ⟨_, s₁, s₂, hrotate, hsync, hbind⟩ := bindProxy_ok hok
    obtain ⟨rfl, _, _⟩ := setProxyBinding_ok hbind
    have hs₂ : orUnchanged (rotated h u (.bindProxy proxy sync newUuid) s) s = s₂ := by
      rw [rotated, rotateFor, hrotate, ok_bind, hsync, orUnchanged]
    rw [hs₂]
    simp only [keepsRoute, Bool.false_eq_true, false_or]
    exact hmain rfl rfl (socksUsername_saveProxyMetadata h u proxy s₂)
      (managedRules_saveProxyMetadata h u proxy s₂)
  | bindMultipleProxies proxies balancing =>
    obtain ⟨first, entries, _, _, rfl⟩ := bindMultipleProxies_ok hok
    simp only [keepsRoute, rotated, orUnchanged, Bool.false_eq_true, false_or]
    rw [installedNames_saveProxyMetadata, rules_saveProxyMetadata]
    exact hmain rfl rfl rfl rfl
  | direct =>
    obtain ⟨_, rfl⟩ := direct_ok hok
    have hrow : registryUser (s.users.modify u clearProxyMetadata) u =
      clearProxyMetadata (registryUser s.users u) :=
      registryUser_modify rfl
    simp only [keepsRoute, rotated, orUnchanged, Bool.false_eq_true, false_or]
    exact hmain rfl rfl (by rw [hrow]; rfl) (by rw [hrow]; rfl)
  | repair =>
    cases hok
    simp only [keepsRoute, rotated, orUnchanged]
    cases hroute : s.rules.any (·.outbound = some (outboundTag u)) with
    | true =>
      obtain ⟨hrules, hin, husers⟩ := repair_present hroute
      have hnames : installedNames (setDirectBinding u false s) u = installedNames s u :=
        installedNames_congr hin (by rw [husers])
      rw [hrules, hnames]
      exact ⟨fun _ => Or.inl rfl, fun _ => hfirst⟩
    | false =>
      obtain ⟨outbounds, hrebuild⟩ := repair_missing hroute
      rw [hrebuild]
      simp only [Bool.false_eq_true, false_or]
      exact hmain rfl rfl rfl rfl

def rejectedUser (m : Metadata) : Node where
  inbounds := [{ tag := "vless-reality", users :=
    [{ login := .name "node-manager:alice", uuid := some "a" }] }]
  outbounds := [{ type := .direct, tag := "node-manager-out:alice" }]
  rules := [.reject ["alice", "node-manager:alice"],
    .route ["alice", "node-manager:alice"] "node-manager-out:alice"]
  users := ⟨[("alice", m)], List.nodup_singleton "alice"⟩

def expiredUser : Node :=
  rejectedUser
    { expirationBlocked := true
      expirationAuthUsers := some ["alice", "node-manager:alice"] }

def suspendedUser : Node :=
  rejectedUser
    { accessBlocked := true
      accessBlockedAuthUsers := some ["alice", "node-manager:alice"] }

theorem direct_keeps_expired_rejected :
    (rebind default "alice" .direct expiredUser).toOption.isSome = true ∧
      ∀ n ∈ installedNames
          (orUnchanged (rebind default "alice" .direct expiredUser) expiredUser) "alice",
        rejectedFirst
          (orUnchanged (rebind default "alice" .direct expiredUser) expiredUser).rules n = true :=
  ⟨by decide, (@rebind_keeps_reject_iff default "alice" .direct expiredUser
    (orUnchanged (rebind default "alice" .direct expiredUser) expiredUser) (by decide)
    (by decide)).mpr (Or.inr (by decide))⟩

/-- An explicit direct task moves the route of a suspended user in front of its reject rule. -/
theorem direct_routes_suspended_user :
    (registryUser suspendedUser.users "alice").accessBlocked = true ∧
      (∀ n ∈ installedNames suspendedUser "alice", rejectedFirst suspendedUser.rules n = true) ∧
      (rebind default "alice" .direct suspendedUser).toOption.isSome = true ∧
      ¬ ∀ n ∈ installedNames
          (orUnchanged (rebind default "alice" .direct suspendedUser) suspendedUser) "alice",
        rejectedFirst
          (orUnchanged (rebind default "alice" .direct suspendedUser) suspendedUser).rules
          n = true := by
  decide

end NodeManager.BlockedRebinding
