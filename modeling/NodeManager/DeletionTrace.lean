import NodeManager.EntryTrace

namespace NodeManager.DeletionTrace

open Text Dictionary Singbox Identities Outcomes DenyRules DenyAccounting Bindings Accounts
  Operations AuthNameSteps DenyTrace UserTrace EntryTrace Runs

variable {h : Host} {s₀ s s' : Node} {u : String} {enforcements : Dict String Enforcement}
  {persist : Bool} {op : Operation} {request : CreateUser} {users : Users}

theorem not_exists_of_absent (hs : Absent u s) : userExists s.inbounds s.users u = false := by
  rw [Bool.eq_false_iff, ne_eq, userExists_iff]
  rintro ⟨tag, user, he, hc⟩
  rw [hs.entries tag user he] at hc
  cases hc

theorem renewEach_of_not_exists {ids : List String} {renewal : Renewal} (hids : ∀ v ∈ ids, v = u)
    (hne : ids ≠ []) (hnot : userExists s.inbounds s.users u = false) :
    renewEach renewal ids s ≠ .ok s' := by
  obtain ⟨v, rest, rfl⟩ := List.exists_cons_of_ne_nil hne
  obtain rfl := hids v List.mem_cons_self
  intro hok
  obtain ⟨t, hone, _⟩ := bind_eq_ok hok
  rw [renewOne, if_pos hnot] at hone
  cases hone

theorem checkSync_of_not_exists {item : ExpirationSync}
    (hnot : userExists s.inbounds s.users item.userId = false) (expiresAt : Int) :
    checkSync h item s ≠ .ok expiresAt := by
  unfold checkSync
  split
  · exact fun he => by cases he
  · rw [if_pos hnot]
    exact fun he => by cases he

theorem syncUserEnforcements_of_absent (hu : u ∉ s.users.keys)
    (hkeys : ∀ v ∈ enforcements.keys, v = u) :
    syncUserEnforcements h persist enforcements s = s := by
  refine @foldl_invariant Node (String × Enforcement) (· = s) _ enforcements.entries s rfl ?_
  rintro t item hitem rfl
  obtain rfl := hkeys item.1 (List.mem_map_of_mem hitem)
  simp only [syncUserEnforcement, Dict.get?_eq_none.mpr hu]

theorem blocking_of_absent (hs : Absent u s) (hb : isBlocking op = true)
    (hu : ∀ v ∈ subjects s op, v = u) :
    mutateConfig h op s = s := by
  have hnot := not_exists_of_absent hs
  refine @orUnchanged_invariant String Node (· = s) _ s rfl ?_
  intro s' hok
  cases op with
  | setUserAccess v enabled =>
    obtain rfl := hu v (by simp [subjects])
    rw [perform, setUserAccess, if_pos hnot] at hok
    cases hok
  | processUserExpirations now =>
    have hnone : s.users.keys.filter (expired s.users now) = [] := by
      rw [List.eq_nil_iff_forall_not_mem]
      intro v hv
      obtain rfl := hu v hv
      exact hs.row (List.mem_filter.mp hv).1
    simp only [perform, processUserExpirations, hnone] at hok
    simpa using hok.symm
  | renewUsers ids renewal =>
    simp only [perform, renewUsers] at hok
    split_ifs at hok with hids
    exact (renewEach_of_not_exists hu (fun he => hids (Or.inl he)) hnot hok).elim
  | updateUserExpiration v expiresAt now =>
    obtain rfl := hu v (by simp [subjects])
    rw [perform, updateUserExpiration, if_pos hnot] at hok
    split_ifs at hok
  | restoreUser v expiresAt now =>
    obtain rfl := hu v (by simp [subjects])
    simp only [perform, restoreUser, if_pos hnot] at hok
    split_ifs at hok
  | syncUserExpirations items now =>
    simp only [perform, syncUserExpirations] at hok
    split_ifs at hok
    cases hok
    refine @foldl_invariant Node ExpirationSync (· = s) _ items s rfl ?_
    rintro t item hitem rfl
    refine @orUnchanged_invariant String Node (· = t) _ t rfl ?_
    intro t' hone
    obtain ⟨expiresAt, hcheck, _⟩ := bind_eq_ok hone
    have hv : item.userId = u := hu item.userId (List.mem_map_of_mem hitem)
    exact (checkSync_of_not_exists (hv ▸ hnot) expiresAt hcheck).elim
  | syncUserEnforcements enforcements persist =>
    cases hok
    exact syncUserEnforcements_of_absent hs.row hu
  | _ => simp [isBlocking] at hb

theorem mem_createdNames {n : String}
    (hn : n ∈ userAuthNames (users.set request.userId request.metadata) request.userId) :
    n ∈ userAuthNames users request.userId ∨
      (.socks ∈ request.protocols ∧ n =
        publicName request.userId request.effectiveSocksUsername) := by
  have hrow : registryUser (users.set request.userId request.metadata) request.userId =
      request.metadata := by
    rw [registryUser, Dict.get?_set, if_pos rfl, Option.getD_some]
  rw [mem_userAuthNames, publicSocksUsername, hrow, CreateUser.metadata] at hn
  rw [mem_userAuthNames]
  rcases hn with hn | hn | hn
  · exact Or.inl (Or.inl hn)
  · exact Or.inl (Or.inr (Or.inl hn))
  split_ifs at hn with hp
  · exact Or.inr ⟨hp, hn⟩
  · exact Or.inl (Or.inr (Or.inl hn))

theorem carries_entry (hu : request.userId ≠ "") {p : Protocol} (hp : p ∈ request.protocols)
    (hstrip : .socks ∈ request.protocols →
      strip request.effectiveSocksUsername = request.effectiveSocksUsername) :
    (request.entry p).carries (userAuthNames (users.set request.userId request.metadata)
      request.userId) = true := by
  cases p with
  | socks =>
    have hnames : userAuthNames (users.set request.userId request.metadata) request.userId =
        [authName request.userId, request.userId,
          publicName request.userId request.effectiveSocksUsername] := by
      rw [userAuthNames, publicSocksUsername, registryUser, Dict.get?_set, if_pos rfl,
        Option.getD_some, CreateUser.metadata, if_pos hp]
      rfl
    rw [hnames]
    exact carries_of_login (mem_names_of_stripped (hstrip hp) (effectiveSocksUsername_ne_empty hu))
      (Or.inr rfl)
  | _ => exact carries_of_login (authName_mem _ _) (Or.inl rfl)

theorem added_createUser (habs : Absent request.userId s) (hu : request.userId ≠ "")
    (hprotocols : request.protocols ≠ [])
    (hassign : .socks ∈ request.protocols →
      Assignable request.userId s request.effectiveSocksUsername)
    (hok : createUser h request s = .ok s') : Added h request.userId s s' := by
  obtain ⟨_, hfree, inbounds, hinstall, _, hbind⟩ := createUser_ok hok
  have hcarries : ∀ p ∈ request.protocols, (request.entry p).carries
      (userAuthNames (s.users.set request.userId request.metadata) request.userId) = true :=
    fun p hp => carries_entry hu hp (fun hp => (hassign hp).1)
  have hentries : ∀ tag user, Entry s.inbounds tag user →
      user.carries (userAuthNames (s.users.set request.userId request.metadata)
        request.userId) = false := by
    intro tag user he
    rw [Bool.eq_false_iff, ne_eq, carries_iff]
    rintro ⟨n, hn, hl⟩
    have hold : n ∉ userAuthNames s.users request.userId := by
      intro hn
      have hc := habs.entries tag user he
      cases (carries_of_login hn hl).symm.trans hc
    rcases mem_createdNames hn with hn | ⟨hp, rfl⟩
    · exact hold hn
    unfold publicName at hl hold
    rw [(hassign hp).1] at hl hold
    split_ifs at hl hold
    · exact hold (mem_userAuthNames.mpr (Or.inr (Or.inl rfl)))
    have hnone := hfree hp
    rw [authIdentifierExists_iff.mpr ⟨tag, user, he, hl⟩] at hnone
    cases hnone
  have hrules : ∀ rule ∈ s.rules,
      rule.touches (userAuthNames (s.users.set request.userId request.metadata)
        request.userId) = false := by
    intro rule hr
    rw [Bool.eq_false_iff, ne_eq]
    intro ht
    obtain ⟨n, hn, hmem⟩ := Rule.touches_iff.mp ht
    have hno := (habs.rules rule hr).1
    rcases mem_createdNames hmem with hmem | ⟨hp, rfl⟩
    · rw [Rule.touches_iff.mpr ⟨n, hn, hmem⟩] at hno
      cases hno
    · cases ((hassign hp).2 rule hr hn).symm.trans hno
  have hs₁ : Added h request.userId s
      { s with inbounds := inbounds, users := s.users.set request.userId request.metadata } := by
    refine ⟨⟨Dict.mem_keys_set.mpr (Or.inl rfl), ?_⟩, ?_, ?_, ?_, ?_, ?_⟩
    · have hnone : rejectsNaming (userAuthNames (s.users.set request.userId request.metadata)
          request.userId) s.rules =
          [] := by
        rw [rejectsNaming, List.filter_eq_nil_iff]
        intro rule hr
        rw [rejects, hrules rule hr, Bool.and_false]
        exact Bool.false_ne_true
      rw [hnone]
      exact List.nil_subperm
    · obtain ⟨p, hp⟩ := List.exists_mem_of_ne_nil _ hprotocols
      exact userExists_iff.mpr ⟨_, _, (entry_installUser hinstall).mpr (Or.inr ⟨p, hp, rfl, rfl⟩),
        hcarries p hp⟩
    · exact (withoutUsers_installEach hcarries hinstall).trans (withoutUsers_eq_self hentries)
    · intro tag user he hc
      rcases (entry_installUser hinstall).mp he with he | ⟨p, _, htag, rfl⟩
      · cases (hentries tag user he).symm.trans hc
      cases p with
      | socks => exact Or.inr ⟨htag, _, rfl⟩
      | _ => exact Or.inl rfl
    · rw [List.filter_eq_self]
      intro outbound ho
      exact decide_eq_true (habs.outbounds outbound ho)
    · intro rule hr ht
      cases (hrules rule hr).symm.trans ht
  unfold bindCreated at hbind
  split at hbind
  · exact hs₁.setProxyBinding hbind
  · cases hbind
    exact hs₁.addDirectOutbound.addRoute

theorem Added.syncUserEnforcements (hs : Added h u s₀ s) (hkeys : ∀ v ∈ enforcements.keys, v = u) :
    Added h u s₀ (syncUserEnforcements h persist enforcements s) := by
  apply foldl_invariant hs
  intro t item hitem ht
  obtain rfl := hkeys item.1 (List.mem_map_of_mem hitem)
  exact ht.syncUserEnforcement

/-- The steps on the user that deletion undoes: no name is taken that rules of others list or that
has outer blanks, and no rotation renames the rule of an access block. -/
def Allowed (h : Host) (u : String) (s : Node) : Operation → Prop
  | .createUser request => request.userId = u ∧ request.protocols ≠ [] ∧
      (.socks ∈ request.protocols → Assignable u s request.effectiveSocksUsername)
  | .bindProxy v proxy sync _ => v = u ∧ (sync = true → Rotatable h u s (proxy.username.getD ""))
  | .direct v => v = u
  | .syncUserEnforcements enforcements _ => ∀ v ∈ enforcements.keys, v = u
  | op => isBlocking op = true ∧ ∀ v ∈ subjects s op, v = u

instance (h : Host) (u : String) (s : Node) (op : Operation) : Decidable (Allowed h u s op) := by
  rcases op <;> (unfold Allowed; infer_instance)

theorem added_step (hu : u ≠ "") (hs : Added h u s₀ s) (ha : Allowed h u s op) :
    Added h u s₀ (mutateConfig h op s) := by
  have hblocking : isBlocking op = true → (∀ v ∈ subjects s op, v = u) →
      Added h u s₀ (mutateConfig h op s) := by
    intro hb hsubject
    exact (Added.blockingInvariant hu).step hb hsubject (fun _ _ _ _ _ _ => trivial) hs
  cases op with
  | createUser request =>
    apply orUnchanged_invariant hs
    intro s' hok
    obtain ⟨hnot, _⟩ := createUser_ok hok
    rw [ha.1, hs.installed] at hnot
    cases hnot
  | bindProxy v proxy sync newUuid =>
    obtain ⟨rfl, hr⟩ := ha
    exact orUnchanged_invariant hs (fun s' hok => bindProxy_added hs hu hr hok)
  | direct v =>
    obtain rfl := ha
    exact orUnchanged_invariant hs (fun s' hok => hs.direct hok)
  | syncUserEnforcements enforcements persist => exact Added.syncUserEnforcements hs ha
  | _ => exact hblocking ha.1 ha.2

theorem absent_step (hu : u ≠ "") (hs : Absent u s) (ha : Allowed h u s op) :
    mutateConfig h op s = s ∨ Added h u s (mutateConfig h op s) := by
  have hnot := not_exists_of_absent hs
  cases op with
  | createUser request =>
    obtain ⟨rfl, hprotocols, hassign⟩ := ha
    refine @orUnchanged_invariant String Node (fun t => t = s ∨ Added h request.userId s t) _ s
      (Or.inl rfl) ?_
    intro s' hok
    exact Or.inr (added_createUser hs hu hprotocols hassign hok)
  | bindProxy v proxy sync newUuid =>
    obtain ⟨rfl, _⟩ := ha
    refine Or.inl (@orUnchanged_invariant String Node (· = s) _ s rfl ?_)
    intro s' hok
    cases ((bindProxy_ok hok).1).symm.trans hnot
  | direct v =>
    obtain rfl := ha
    refine Or.inl (@orUnchanged_invariant String Node (· = s) _ s rfl ?_)
    intro s' hok
    cases ((direct_ok hok).1).symm.trans hnot
  | syncUserEnforcements enforcements persist =>
    exact Or.inl (syncUserEnforcements_of_absent hs.row ha)
  | _ => exact Or.inl (blocking_of_absent hs ha.1 ha.2)

/-- What is left after a user with these names is deleted from a node that once was `s₀`. -/
structure NoTrace (h : Host) (u : String) (names : List String) (s₀ s : Node) : Prop where
  row : u ∉ s.users.keys
  entries : ∀ tag user, Entry s.inbounds tag user → user.carries names = false
  inbounds : s.inbounds = s₀.inbounds
  outbounds : s.outbounds = s₀.outbounds
  rules : ∀ rule ∈ s.rules, rule.touches names = false ∧ rule.outbound ≠ some (outboundTag u)
  available : ∀ v identity, assertProxyAvailable h s.outbounds v identity =
    assertProxyAvailable h s₀.outbounds v identity

theorem noTrace_of_outbounds {names : List String}
    (hin : withoutUsers names s.inbounds = s₀.inbounds) (hnames : userAuthNames s.users u = names)
    (hout : s.outbounds.filter (·.tag ≠ outboundTag u) = s₀.outbounds)
    (hrules : ∀ rule ∈ (deleteUser u s).rules, rule.touches names = false) :
    NoTrace h u names s₀ (deleteUser u s) := by
  have hinbounds : (deleteUser u s).inbounds = withoutUsers names s.inbounds := by
    rw [← hnames]
    rfl
  have houtbounds : (deleteUser u s).outbounds = s₀.outbounds := hout
  refine ⟨fun hk => (Dict.mem_keys_erase.mp hk).1 rfl, ?_, hinbounds.trans hin, houtbounds, ?_, ?_⟩
  · rw [hinbounds]
    exact fun tag user he => (entry_withoutUsers.mp he).2
  · intro rule hr
    refine ⟨hrules rule hr, ?_⟩
    rw [rules_deleteUser, List.mem_filter, decide_eq_true_eq] at hr
    exact hr.2.2
  · intro v identity
    rw [houtbounds]

theorem Absent.noTrace (hs : Absent u s) :
    NoTrace h u (userAuthNames s.users u) s (deleteUser u s) := by
  refine noTrace_of_outbounds (withoutUsers_eq_self hs.entries) rfl ?_ ?_
  · rw [List.filter_eq_self]
    exact fun outbound ho => decide_eq_true (hs.outbounds outbound ho)
  intro rule hr
  rw [rules_deleteUser] at hr
  exact (hs.rules rule ((List.diff_sublist _ _).subset (List.mem_of_mem_filter hr))).1

theorem Added.noTrace (hs : Added h u s₀ s)
    (haccess : (registryUser s.users u).accessBlocked = false) :
    NoTrace h u (userAuthNames s.users u) s₀ (deleteUser u s) := by
  refine noTrace_of_outbounds hs.entries rfl hs.outbounds ?_
  intro rule hr
  have hreject := not_rejected_of_deleted hs.accounted haccess rule hr
  rw [rules_deleteUser, List.mem_filter, decide_eq_true_eq] at hr
  obtain ⟨hmem, _, hroute⟩ := hr
  rw [Bool.eq_false_iff, ne_eq]
  intro ht
  rcases hs.rules rule ((List.diff_sublist _ _).subset hmem) ht with haction | hout
  · rw [rejects, haction, ht] at hreject
    cases hreject
  · exact hroute hout

/-- Deleting a user that is not suspended undoes every run of such steps on it. -/
theorem deletion_leaves_no_trace (h : Host) (u : String) (ops : List Operation) (s : Node)
    (hu : u ≠ "") (hs : Absent u s) (hp : Permitted (mutateConfig h) (Allowed h u) ops s)
    (haccess : (registryUser (run (mutateConfig h) ops s).users u).accessBlocked = false) :
    NoTrace h u (userAuthNames (run (mutateConfig h) ops s).users u) s
      (mutateConfig h (.deleteUser u) (run (mutateConfig h) ops s)) := by
  have hinv : run (mutateConfig h) ops s = s ∨ Added h u s (run (mutateConfig h) ops s) := by
    refine @run_invariant Node Operation (mutateConfig h) (Allowed h u)
      (fun t => t = s ∨ Added h u s t) ?_ ops s (Or.inl rfl) hp
    rintro t op (rfl | ht) ha
    · exact absent_step hu hs ha
    · exact Or.inr (added_step hu ht ha)
  rcases hinv with heq | hadded
  · rw [heq]
    exact Absent.noTrace hs
  · exact Added.noTrace hadded haccess

def sharedNode : Node where
  inbounds :=
    [{ tag := "vless-reality", users := [{ login := .name "node-manager:bob" }] },
      { tag := "socks", listenPort := some 1080 }]
  outbounds := [{ type := .direct, tag := "node-manager-out:bob" }]
  rules := [.route ["bob", "node-manager:bob"] "node-manager-out:bob"]
  users := ⟨[("bob", {})], List.nodup_singleton "bob"⟩

theorem absent_sharedNode : Absent "alice" sharedNode := by
  have hfree : ∀ inbound ∈ sharedNode.inbounds, ∀ user ∈ inbound.users,
      user.carries (userAuthNames sharedNode.users "alice") = false := by decide
  refine ⟨by decide, ?_, by decide, by decide⟩
  rintro tag user ⟨inbound, hi, _, hu⟩
  exact hfree inbound hi user hu

def createAlice : Operation :=
  .createUser
    { userId := "alice", protocols := [.vless, .socks]
      socksUsername := some "al", expiresAt := some 5 }

def blockTraffic : Operation :=
  .syncUserEnforcements ⟨[("alice", { trafficBlocked := true })],
    List.nodup_singleton "alice"⟩ false

def aliceRun : List Operation :=
  [createAlice, .bindProxy "alice" (.sample "198.51.100.1") true none, blockTraffic,
    .processUserExpirations 9]

theorem no_trace_of_alice : (run (mutateConfig default) aliceRun sharedNode).rules.length = 4 ∧
      NoTrace default "alice" (userAuthNames (run (mutateConfig default) aliceRun sharedNode).users
        "alice") sharedNode (mutateConfig default (.deleteUser "alice")
        (run (mutateConfig default) aliceRun sharedNode)) :=
  ⟨by decide, deletion_leaves_no_trace default "alice" aliceRun sharedNode (by decide)
    absent_sharedNode (by decide) (by decide)⟩

/-- The reject rule of a suspended user survives its deletion, and so do the members of a balanced
user, with their exits. -/
theorem deleted_user_leaves_traces :
    Absent "alice" sharedNode ∧ Rule.reject ["al", "alice", "node-manager:alice"] ∈
        (run (mutateConfig default) [createAlice, .setUserAccess "alice" false, .deleteUser "alice"]
          sharedNode).rules ∧
      (run (mutateConfig default) [createAlice, .bindMultipleProxies "alice"
          [.sample "198.51.100.1", .sample "198.51.100.2"] {},
          .deleteUser "alice"] sharedNode).outbounds.map (·.tag) =
        [outboundTag "bob", memberTag "alice" 0, memberTag "alice" 1] ∧
      perform default (.bindProxy "bob" (.sample "198.51.100.1") false none)
      (run (mutateConfig default)
          [createAlice, .bindMultipleProxies "alice"
            [.sample "198.51.100.1", .sample "198.51.100.2"] {},
            .deleteUser "alice"] sharedNode) = .error "当前已有这条住宅IP的连接了" :=
  ⟨absent_sharedNode, by decide⟩

end NodeManager.DeletionTrace
