import NodeManager.AuthNameSteps
import NodeManager.DenyTrace

namespace NodeManager.UserTrace

open Dictionary Singbox Identities Occurrences DenyRules DenyAccounting Bindings Accounts
  BlockingOperations DenyRenaming AccountedOperations

structure Absent (u : String) (s : Node) : Prop where
  row : u ∉ s.users.keys
  entries : ∀ tag user, Entry s.inbounds tag user → user.carries (userAuthNames s.users u) = false
  outbounds : ∀ outbound ∈ s.outbounds, outbound.tag ≠ outboundTag u
  rules : ∀ rule ∈ s.rules, rule.touches (userAuthNames s.users u) = false ∧
    rule.outbound ≠ some (outboundTag u)

/-- What a user has added to `s₀`: entries under its names, one outbound, routes to it and reject
rules that its row accounts for. -/
structure Added (h : Host) (u : String) (s₀ s : Node) : Prop where
  accounted : AccountedBy recordedRules u s
  installed : userExists s.inbounds s.users u = true
  entries : withoutUsers (userAuthNames s.users u) s.inbounds = s₀.inbounds
  logins : ∀ tag user, Entry s.inbounds tag user → user.carries (userAuthNames s.users u) = true →
    user.login = .name (authName u) ∨ (tag = h.socksTag ∧ ∃ n, user.login = .username n)
  outbounds : s.outbounds.filter (·.tag ≠ outboundTag u) = s₀.outbounds
  rules : ∀ rule ∈ s.rules, rule.touches (userAuthNames s.users u) = true →
    rule.action = .reject ∨ rule.outbound = some (outboundTag u)

variable {h : Host} {s₀ s s' : Node} {u : String} {rules : List Rule} {m : Metadata} {rule : Rule}
  {outbound : Outbound}

/-- A write that keeps the entries, names and outbounds of others, and whose new rules are of the
two kinds. -/
theorem Added.write (hs : Added h u s₀ s) (hacc : AccountedBy recordedRules u s')
    (hin : s'.inbounds = s.inbounds)
    (hsocks : (registryUser s'.users u).socksUsername = (registryUser s.users u).socksUsername)
    (hout : s'.outbounds.filter (·.tag ≠ outboundTag u) =
    s.outbounds.filter (·.tag ≠ outboundTag u)) (hrules :
    ∀ rule ∈ s'.rules, rule ∈ s.rules ∨ rule.action = .reject ∨
    rule.outbound = some (outboundTag u)) :
    Added h u s₀ s' := by
  have hnames := userAuthNames_congr hsocks
  refine ⟨hacc, ?_, ?_, ?_, ?_, ?_⟩
  · rw [userExists, hin, hnames]
    exact hs.installed
  · rw [hin, hnames]
    exact hs.entries
  · rw [hin, hnames]
    exact hs.logins
  · rw [hout]
    exact hs.outbounds
  rw [hnames]
  intro rule hr ht
  rcases hrules rule hr with hr | hkind
  · exact hs.rules rule hr ht
  · exact hkind

theorem Added.store (hs : Added h u s₀ s) (hacc : AccountedBy recordedRules u (store s u rules m))
    (hname : m.socksUsername = (registryUser s.users u).socksUsername)
    (hrules : ∀ rule ∈ rules, rule ∈ s.rules ∨ rule.action = .reject) :
    Added h u s₀ (store s u rules m) := by
  refine hs.write hacc rfl ?_ rfl ?_
  · rw [registryUser_store_self hs.accounted.registered, hname]
  intro rule hr
  rcases hrules rule hr with hr | hr
  · exact Or.inl hr
  · exact Or.inr (Or.inl hr)

theorem mem_removeAccessRule (hr : rule ∈ (removeAccessRule rules m).1) : rule ∈ rules := by
  unfold removeAccessRule at hr
  split at hr
  · exact hr
  · exact hr
  split_ifs at hr
  · exact List.mem_of_mem_erase hr
  · exact hr

theorem mem_removeExpirationRule (hr : rule ∈ (removeExpirationRule rules m).1) : rule ∈ rules := by
  rw [removeExpirationRule_eq_diff] at hr
  exact (List.diff_sublist _ _).subset hr

theorem mem_cons_reject {rules' : List Rule} (hsub : ∀ rule ∈ rules', rule ∈ rules)
    (names : List String) :
    ∀ rule ∈ Rule.reject names :: rules', rule ∈ rules ∨ rule.action = .reject := by
  intro rule hr
  rcases List.mem_cons.mp hr with rfl | hr
  · exact Or.inr rfl
  · exact Or.inl (hsub rule hr)

section

variable (hs : Added h u s₀ s)
include hs

theorem Added.allowAccess : Added h u s₀ (allowAccess u s) := by
  have hacc := AccountedBy.allowAccess ledger_recordedRules hs.accounted
  exact hs.store hacc rfl (fun _ hr => Or.inl (mem_removeAccessRule hr))

theorem Added.denyAccess (hu : u ≠ "") : Added h u s₀ (denyAccess u s) := by
  have hacc := AccountedBy.denyAccess ledger_recordedRules hs.accounted hu
  unfold DenyRules.denyAccess at hacc ⊢
  dsimp only at hacc ⊢
  split_ifs at hacc ⊢ with hsame
  · exact hs.store hacc rfl (fun _ hr => Or.inl hr)
  · exact hs.store hacc rfl (mem_cons_reject (fun _ hr => mem_removeAccessRule hr) _)

theorem Added.addExpirationRule (hu : u ≠ "") : Added h u s₀ (addExpirationRule u s) := by
  have hacc := AccountedBy.addExpirationRule ledger_recordedRules hs.accounted hu
  unfold DenyRules.addExpirationRule at hacc ⊢
  dsimp only at hacc ⊢
  split_ifs at hacc ⊢ with hsame
  · exact hs
  · exact hs.store hacc rfl (mem_cons_reject (fun _ hr => mem_removeExpirationRule hr) _)

theorem Added.syncUserEnforcement {persist : Bool} {desired : Enforcement} :
    Added h u s₀ (syncUserEnforcement h persist s u desired) := by
  have hacc := @DenyTrace.AccountedBy.syncUserEnforcement s u hs.accounted h persist desired
  obtain he | ⟨m, hm, _, _, he⟩ := syncUserEnforcement_cases h persist s u desired
  · rw [he]
    exact hs
  have hrow := registryUser_of_get? hm
  have hlift : ∀ rule ∈ removeManagedEnforcementRules s.rules m, rule ∈ s.rules :=
    fun _ hr => (removeAllBut_sublist _ _ _).subset hr
  rw [he, enforce] at hacc ⊢
  split_ifs at hacc ⊢
  · refine hs.store hacc (by rw [hrow]) ?_
    intro rule hr
    rcases mem_insertAt.mp hr with rfl | hr
    · exact Or.inr rfl
    · exact Or.inl (hlift rule hr)
  · refine hs.store hacc (by rw [hrow]) ?_
    intro rule hr
    rcases mem_insertAt.mp hr with rfl | hr
    · exact Or.inr rfl
    · exact Or.inl (hlift rule hr)
  · exact hs.store hacc (by rw [hrow]) (fun rule hr => Or.inl (hlift rule hr))

end

theorem Added.blockingInvariant (hu : u ≠ "") :
    BlockingInvariant h (· = u) (fun _ => True) (Added h u s₀) where
  allow _ _ hv hs := hv ▸ Added.allowAccess (hv ▸ hs)
  deny _ _ hv hs := hv ▸ Added.denyAccess (hv ▸ hs) (hv ▸ hu)
  expire _ _ hv hs := hv ▸ Added.addExpirationRule (hv ▸ hs) (hv ▸ hu)
  redate s v m hv hm hs := by
    subst hv
    exact hs.store (AccountedBy.redate ledger_recordedRules hs.accounted hm) hm.socksUsername_eq
      (fun _ hr => Or.inl hr)
  renew s v m hv hm hs := by
    subst hv
    exact hs.store (AccountedBy.renew ledger_recordedRules hs.accounted hm) hm.socksUsername_eq
      (fun _ hr => Or.inl (mem_removeExpirationRule hr))
  enforce s v desired _ hv _ _ hs := by
    subst hv
    exact hs.syncUserEnforcement

theorem mem_insertRoute {t : Node} (hr : rule ∈ (insertRoute u t).rules) :
    rule ∈ t.rules ∨ rule.outbound = some (outboundTag u) := by
  rcases mem_insertAt.mp hr with rfl | hr
  · exact Or.inr (Rule.outbound_route _ _)
  · exact Or.inl hr

theorem mem_rebuildRoute {t : Node} (hr : rule ∈ (rebuildRoute u t).rules) :
    rule ∈ t.rules ∨ rule.outbound = some (outboundTag u) := by
  rcases mem_insertRoute hr with hr | hr
  · exact Or.inl (List.mem_of_mem_filter hr)
  · exact Or.inr hr

theorem filter_tag_append (outbounds : List Outbound) (htag : outbound.tag = outboundTag u) :
    (outbounds.filter (·.tag ≠ outboundTag u) ++ [outbound]).filter (·.tag ≠ outboundTag u) =
      outbounds.filter (·.tag ≠ outboundTag u) := by
  rw [List.filter_append, List.filter_filter, List.filter_singleton, htag]
  simp

section

variable (hs : Added h u s₀ s)
include hs

theorem Added.rebind (htag : outbound.tag = outboundTag u) {users : Users}
    (hacc : AccountedBy recordedRules u { s with
      outbounds := s.outbounds.filter (·.tag ≠ outboundTag u) ++ [outbound], users := users })
    (hsocks : (registryUser users u).socksUsername = (registryUser s.users u).socksUsername) :
    Added h u s₀ (rebuildRoute u
      { s with
        outbounds := s.outbounds.filter (·.tag ≠ outboundTag u) ++ [outbound], users :=
        users }) := by
  refine hs.write (AccountedBy.rebuildRoute hacc) rfl hsocks (filter_tag_append s.outbounds htag) ?_
  intro rule hr
  rcases mem_rebuildRoute hr with hr | hr
  · exact Or.inl hr
  · exact Or.inr (Or.inr hr)

theorem Added.setProxyBinding {proxy : Proxy}
    (hok : setProxyBinding h u proxy (saveProxyMetadata h u proxy s) = .ok s') :
    Added h u s₀ s' := by
  have hacc := AccountedBy.saveProxyMetadata hs.accounted ledger_recordedRules h proxy
  obtain ⟨rfl, _, _⟩ := setProxyBinding_ok hok
  exact hs.rebind (tag_socksOutbound _ _ _ _ _) ⟨hacc.registered, hacc.rejects⟩
    (socksUsername_saveProxyMetadata h u proxy s)

theorem Added.direct (hok : direct u s = .ok s') : Added h u s₀ s' := by
  have hrow : registryUser (s.users.modify u clearProxyMetadata) u =
    clearProxyMetadata (registryUser s.users u) :=
    registryUser_modify rfl
  have hsocks : (registryUser (s.users.modify u clearProxyMetadata) u).socksUsername =
      (registryUser s.users u).socksUsername := by
    rw [hrow]
    rfl
  obtain ⟨_, rfl⟩ := direct_ok hok
  refine hs.rebind rfl (AccountedBy.congr hs.accounted ?_ rfl hsocks ?_) hsocks
  · rw [Dict.keys_modify]
    exact hs.accounted.registered
  · rw [hrow, ledger_recordedRules.clear]

theorem Added.addDirectOutbound : Added h u s₀ (addDirectOutbound u s) := by
  unfold Bindings.addDirectOutbound
  split_ifs
  · exact hs
  · refine hs.write ⟨hs.accounted.registered, hs.accounted.rejects⟩ rfl rfl ?_
      (fun _ hr => Or.inl hr)
    simp

theorem Added.addRoute : Added h u s₀ (addRoute u s) := by
  unfold Bindings.addRoute
  split_ifs
  · exact hs
  refine hs.write (AccountedBy.congr hs.accounted hs.accounted.registered ?_ rfl rfl) rfl rfl rfl ?_
  · exact AccountedBy.rejectsNaming_insertRoute _ s
  intro rule hr
  rcases mem_insertRoute hr with hr | hr
  · exact Or.inl hr
  · exact Or.inr (Or.inr hr)

end

end NodeManager.UserTrace
