import NodeManager.ExitOwnership

namespace NodeManager.ExitRuns

open Dictionary Singbox Identities Outcomes Bindings Credentials Accounts Operations
  ExitOwnership Runs

variable {h : Host} {s s' : Node} {u : String}

theorem mem_keys_saveProxyMetadata {proxy : Proxy} {v : String} :
    v ∈ (saveProxyMetadata h u proxy s).users.keys ↔ v = u ∨ v ∈ s.users.keys := by
  rw [saveProxyMetadata, Dict.keys_modify, Dict.mem_keys_setDefault]

/-- The rotation in front of a binding keeps the outbounds and, up to the user, the registered
ids. -/
theorem rotation_frame {newUuid : Option String} {sync : Bool} {username password : String}
    {s₁ s₂ : Node} (hrotate : rotateWhen h u newUuid s = .ok s₁)
    (hsync : syncWhen h u sync username password s₁ = .ok s₂) :
    s₂.outbounds = s.outbounds ∧ ∀ v, v = u ∨ v ∈ s₂.users.keys ↔ v = u ∨ v ∈ s.users.keys := by
  have hs₁ : s₁.outbounds = s.outbounds ∧ s₁.users = s.users := by
    obtain rfl | ⟨_, _, _, _, rfl⟩ := rotateWhen_ok hrotate <;> exact ⟨rfl, rfl⟩
  rw [← hs₁.1, ← hs₁.2]
  obtain rfl | ⟨_, _, _, rfl, _⟩ := syncWhen_ok hsync
  · exact ⟨rfl, fun _ => Iff.rfl⟩
  · refine ⟨rfl, fun v => ?_⟩
    rw [renameUser, Dict.keys_modify, Dict.mem_keys_setDefault, or_self_left]

theorem exclusive_direct (hs : Exclusive h s) (hok : direct u s = .ok s') : Exclusive h s' := by
  obtain ⟨_, rfl⟩ := direct_ok hok
  have hkeys : (s.users.modify u clearProxyMetadata).keys = s.users.keys := Dict.keys_modify _ _ _
  refine ⟨?_, ?_⟩
  · exact hkeys.symm ▸ hs.unambiguous
  refine List.pairwise_append.mpr ⟨?_, List.pairwise_singleton _ _, ?_⟩
  · exact hkeys.symm ▸ hs.shared.sublist List.filter_sublist
  intro a _ b hb
  rw [List.mem_singleton.mp hb]
  exact Shared.of_none rfl

theorem exclusive_createUser {request : CreateUser} (hs : Exclusive h s)
    (hdist : Distinguishable h s request.userId) (hnamed : ∀ proxy ∈ request.proxy, Named proxy)
    (hok : createUser h request s = .ok s') : Exclusive h s' := by
  obtain ⟨_, _, inbounds, _, _, hbind⟩ := createUser_ok hok
  unfold bindCreated at hbind
  split at hbind
  next proxy hproxy =>
    obtain ⟨rfl, hserver, havail⟩ := setProxyBinding_ok hbind
    refine hs.bindOne hdist ?_ (hnamed proxy hproxy) hserver havail rfl
    intro v
    refine mem_keys_saveProxyMetadata.trans ?_
    rw [Dict.mem_keys_set, or_self_left]
  next =>
    cases hbind
    obtain ⟨_, husers, hout⟩ := setDirectBinding_false request.userId
      { s with inbounds := inbounds, users := s.users.set request.userId request.metadata }
    have hkeys : ∀ v, v ∈ (setDirectBinding request.userId false
        { s with
          inbounds := inbounds, users := s.users.set request.userId request.metadata }).users.keys ↔
          v = request.userId ∨ v ∈ s.users.keys := by
      intro v
      rw [husers, Dict.mem_keys_set]
    rcases hout with hout | hout
    · exact hs.write hdist hkeys (hout.trans (List.append_nil _).symm) (List.Sublist.refl _)
        List.Pairwise.nil (fun _ _ _ hb => (List.not_mem_nil hb).elim)
    refine hs.write hdist hkeys hout (List.Sublist.refl _) (List.pairwise_singleton _ _) ?_
    intro a _ b hb
    rw [List.mem_singleton.mp hb]
    exact Shared.of_none rfl

theorem exclusive_step {op : Operation} (hs : Exclusive h s) (ha : Allowed h s op) :
    Exclusive h (mutateConfig h op s) := by
  apply orUnchanged_invariant hs
  intro s' hok
  cases op with
  | createUser request => exact exclusive_createUser hs ha.1 ha.2 hok
  | bindProxy u proxy sync newUuid =>
    obtain ⟨_, s₁, s₂, hrotate, hsync, hbind⟩ := bindProxy_ok hok
    obtain ⟨hout, hkeys⟩ := rotation_frame hrotate hsync
    obtain ⟨rfl, hserver, havail⟩ := setProxyBinding_ok hbind
    have havail : proxyIdentity h (proxyServer proxy) proxy.port proxy.username proxy.password ∉
        configuredProxyIdentities h s.outbounds u := by
      rw [← hout]
      exact havail
    refine hs.bindOne ha.1 (fun v => mem_keys_saveProxyMetadata.trans (hkeys v)) ha.2
      hserver havail ?_
    rw [← hout]
    rfl
  | bindMultipleProxies u proxies balancing =>
    obtain ⟨first, entries, hentries, _, rfl⟩ := bindMultipleProxies_ok hok
    exact hs.bindMany ha.1 (fun v => mem_keys_saveProxyMetadata) ha.2 hentries rfl
  | direct u => exact exclusive_direct hs hok
  | deleteUser u =>
    cases hok
    exact hs.remove (fun v => Dict.mem_keys_erase) rfl
  | _ => exact ha.elim

theorem exclusive_start (hids : Unambiguous h s.users.keys)
    (hsocks : ∀ outbound ∈ s.outbounds, outbound.type ≠ .socks) :
    Exclusive h s := by
  refine ⟨hids, List.pairwise_of_forall_mem_list ?_⟩
  intro a ha b _ hsome
  refine (hsome ?_).elim
  unfold outboundIdentity
  split
  next _ _ htype _ => exact (hsocks a ha htype).elim
  next => rfl

/-- Every exit belongs to one user along every run on users whose ids do not differ by a number. -/
theorem residential_exit_owned_by_one_user (h : Host) (ops : List Operation) (s : Node)
    (hsocks : ∀ outbound ∈ s.outbounds, outbound.type ≠ .socks) (hids : Unambiguous h s.users.keys)
    (hp : Permitted (mutateConfig h) (Allowed h) ops s) :
    ExitsOwned h (run (mutateConfig h) ops s) := by
  have hinv : Exclusive h (run (mutateConfig h) ops s) :=
    run_invariant (fun _ _ hs ha => exclusive_step hs ha) (exclusive_start hids hsocks) hp
  exact hinv.exitsOwned

instance (h : Host) (keys : List String) : Decidable (Unambiguous h keys) := by
  unfold Unambiguous; infer_instance

def freshNode : Node := { inbounds := [{ tag := "vless-reality" },
    { tag := "socks", listenPort := some 1080 }] }

def createWith (userId : String) (proxy : Option Proxy) : Operation :=
  .createUser { userId := userId, protocols := [.vless], proxy := proxy }

def exitRun : List Operation :=
  [createWith "a" (some (.sample "198.51.100.1")), createWith "b" none,
    .bindMultipleProxies "b" [.sample "198.51.100.2", .sample "198.51.100.3"] {},
    .bindProxy "b" (.sample "198.51.100.2") false none, .direct "a"]

theorem exit_run_owned : (run (mutateConfig default) exitRun freshNode).outbounds.map (·.tag) =
        [outboundTag "b-0", outboundTag "b-1", outboundTag "b", outboundTag "a"] ∧
      ExitsOwned default (run (mutateConfig default) exitRun freshNode) :=
  ⟨by decide, residential_exit_owned_by_one_user default exitRun freshNode (by decide) (by decide)
    (by decide)⟩

/-- The check for a binding of `a` skips the exit of the user `a-1`, as a member of `a`. -/
theorem suffixed_user_shares_exit :
    (∀ outbound ∈ freshNode.outbounds, outbound.type ≠ .socks) ∧ freshNode.users.keys = [] ∧
      validUserId "a" = true ∧ validUserId "a-1" = true ∧
      (run (mutateConfig default) [createWith "a-1" (some (.sample "198.51.100.1")),
        createWith "a" none,
          .bindProxy "a" (.sample "198.51.100.1") false none] freshNode).outbounds =
        [socksOutbound (outboundTag "a-1") "198.51.100.1" 7000 (some "n") (some "p"),
          socksOutbound (outboundTag "a") "198.51.100.1" 7000 (some "n") (some "p")] ∧
      outboundIdentity default (socksOutbound (outboundTag "a-1") "198.51.100.1" 7000 (some "n")
        (some "p")) =
        outboundIdentity default (socksOutbound (outboundTag "a") "198.51.100.1" 7000 (some "n")
          (some "p")) := by
  decide

end NodeManager.ExitRuns
