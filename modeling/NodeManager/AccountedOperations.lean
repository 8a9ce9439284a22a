import NodeManager.BlockingOperations
import NodeManager.DenyRenaming

namespace NodeManager.AccountedOperations

open Dictionary Singbox Identities Occurrences DenyRules DenyLedger DenyAccounting Bindings Accounts
  BlockingOperations DenyRenaming

variable {s : Node} {u : String}

theorem registryUser_store_self (hu : u ∈ s.users.keys) (rules : List Rule) (m : Metadata) :
    registryUser (store s u rules m).users u = m := by
  obtain ⟨m₀, hm₀⟩ := Dict.mem_keys_iff.mp hu
  apply registryUser_of_get?
  rw [get?_store, if_pos rfl, hm₀, Option.map_some]

namespace AccountedBy

variable {owned : Metadata → List Rule} {s' : Node}

theorem store (hs : AccountedBy owned u s) {rules : List Rule} {m : Metadata}
    (hname : m.socksUsername = (registryUser s.users u).socksUsername)
    (hk : Keeps owned s.rules (registryUser s.users u) rules m) :
    AccountedBy owned u (store s u rules m) := by
  have hrow := registryUser_store_self hs.registered rules m
  constructor
  · rw [DenyRules.store, Dict.keys_modify]
    exact hs.registered
  have hnames : userAuthNames (DenyRules.store s u rules m).users u = userAuthNames s.users u := by
    apply userAuthNames_congr
    rw [hrow, hname]
  rw [hnames, hrow]
  exact hk.subperm hs.rejects

section Blocking

variable (ho : Ledger owned)
include ho

section

variable (hs : AccountedBy owned u s)
include hs

theorem allowAccess : AccountedBy owned u (allowAccess u s) := by
  apply store hs
  · rfl
  · exact ho.keeps ((bounded_removeAccessRule s.rules _).congr rfl rfl) rfl

theorem denyAccess (hu : u ≠ "") : AccountedBy owned u (denyAccess u s) := by
  unfold DenyRules.denyAccess
  dsimp only
  split
  · apply store hs
    · rfl
    · exact ho.keeps ((bounded_refl s.rules _).congr rfl rfl) rfl
  · apply store hs
    · rfl
    · exact ho.keeps ((bounded_denyAccess s.rules _ (tidy_blockNames hu)).congr rfl rfl) rfl

theorem addExpirationRule (hu : u ≠ "") : AccountedBy owned u (addExpirationRule u s) := by
  unfold DenyRules.addExpirationRule
  dsimp only
  split
  · exact hs
  apply store hs
  · rfl
  · exact ho.keeps ((bounded_addExpirationRule s.rules _ (tidy_blockNames hu)).congr rfl rfl) rfl

theorem redate {m : Metadata} (hm : Redated (registryUser s.users u) m) :
    AccountedBy owned u (DenyRules.store s u s.rules m) := by
  apply store hs hm.socksUsername_eq
  exact ho.keeps ((bounded_refl s.rules _).congr rfl hm.owners_eq) hm.sourceRules_eq

theorem renew {m : Metadata} (hm : Redated (registryUser s.users u) m) :
    AccountedBy owned u (DenyRules.store s u (removeExpirationRule s.rules m).1
      (removeExpirationRule s.rules m).2) := by
  apply store hs
  · exact hm.socksUsername_eq
  · exact ho.keeps ((bounded_removeExpirationRule s.rules m).congr hm.owners_eq.symm rfl)
      hm.sourceRules_eq

end

theorem blockingInvariant (h : Host) (hu : u ≠ "")
    (henforce : ∀ s desired, AccountedBy owned u s →
      AccountedBy owned u (syncUserEnforcement h false s u desired)) :
    BlockingInvariant h (· = u) (fun _ => True) (AccountedBy owned u) where
  allow _ _ hv hs := hv ▸ allowAccess ho (hv ▸ hs)
  deny _ _ hv hs := hv ▸ denyAccess ho (hv ▸ hs) (hv ▸ hu)
  expire _ _ hv hs := hv ▸ addExpirationRule ho (hv ▸ hs) (hv ▸ hu)
  redate s v m hv hm hs := by
    subst hv
    exact redate ho hs hm
  renew s v m hv hm hs := by
    subst hv
    exact renew ho hs hm
  enforce s v desired _ hv _ _ hs := by
    subst hv
    exact henforce s desired hs

end Blocking

theorem syncUserEnforcement (hs : AccountedBy ownedRules u s) {h : Host} {desired : Enforcement} :
    AccountedBy ownedRules u (syncUserEnforcement h false s u desired) := by
  obtain he | ⟨m, hm, _, _, he⟩ := syncUserEnforcement_cases h false s u desired
  · rw [he]
    exact hs
  have hrow := registryUser_of_get? hm
  rw [he, enforce]
  split_ifs with ht hc
  · apply store hs
    · rw [hrow]
    · rw [hrow]
      exact (bounded_setTraffic s.rules m _ (tidy_enforcementNames s u).1).keeps_ownedRules
  · exact absurd rfl hc
  · apply store hs
    · rw [hrow]
    · rw [hrow]
      exact (bounded_liftTraffic s.rules m).keeps_ownedRules

theorem congr (hs : AccountedBy owned u s) (hkeys : u ∈ s'.users.keys)
    (hrules : rejectsNaming (userAuthNames s.users u) s'.rules =
      rejectsNaming (userAuthNames s.users u) s.rules)
    (hsocks : (registryUser s'.users u).socksUsername = (registryUser s.users u).socksUsername)
    (howned : owned (registryUser s'.users u) = owned (registryUser s.users u)) :
    AccountedBy owned u s' := by
  refine ⟨hkeys, ?_⟩
  rw [userAuthNames_congr hsocks, hrules, howned]
  exact hs.rejects

theorem rejectsNaming_insertRoute (names : List String) (s : Node) :
    rejectsNaming names (insertRoute u s).rules = rejectsNaming names s.rules := by
  have hroute : rejects names (routeRule s u) = false := by
    simp [rejects, routeRule, Rule.route]
  exact filter_insertAt_of_neg hroute

theorem rejectsNaming_rebuildRoute (names : List String) (s : Node) :
    rejectsNaming names (rebuildRoute u s).rules = rejectsNaming names s.rules := by
  rw [Bindings.rebuildRoute, rejectsNaming_insertRoute, rejectsNaming, withoutRoute,
    List.filter_filter]
  apply List.filter_congr
  intro rule _
  cases haction : rule.action <;> simp [rejects, Rule.outbound, haction]

section

variable (hs : AccountedBy owned u s)
include hs

theorem saveProxyMetadata (ho : Ledger owned) (h : Host) (proxy : Proxy) :
    AccountedBy owned u (saveProxyMetadata h u proxy s) := by
  apply congr hs
  · rw [Bindings.saveProxyMetadata, Dict.keys_modify]
    exact Dict.mem_keys_setDefault.mpr (Or.inl rfl)
  · rfl
  · exact socksUsername_saveProxyMetadata h u proxy s
  · rw [registryUser_saveProxyMetadata, ho.exit]

theorem rebuildRoute : AccountedBy owned u (rebuildRoute u s) :=
  congr hs hs.registered (rejectsNaming_rebuildRoute _ s) rfl rfl

theorem setProxyBinding {h : Host} {proxy : Proxy}
    (hok : setProxyBinding h u proxy s = .ok s') : AccountedBy owned u s' := by
  obtain ⟨rfl, _, _⟩ := setProxyBinding_ok hok
  exact rebuildRoute ⟨hs.registered, hs.rejects⟩

theorem rotateWhen {h : Host} {newUuid : Option String}
    (hok : rotateWhen h u newUuid s = .ok s') : AccountedBy owned u s' := by
  obtain rfl | ⟨_, _, _, _, rfl⟩ := rotateWhen_ok hok
  · exact hs
  · exact ⟨hs.registered, hs.rejects⟩

end

end AccountedBy

end NodeManager.AccountedOperations
