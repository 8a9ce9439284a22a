import NodeManager.LegacyNames

namespace NodeManager.AuthMap

open Text Dictionary Singbox Identities Outcomes Credentials Accounts Operations AuthNames
  AuthNameSteps LegacyNames Runs

/-- Every installed name is mapped to one registered user that has it, in whatever order the ids are
visited. -/
def MappedUniquely (s : Node) : Prop :=
  ∀ n, authIdentifierExists s.inbounds n = true → ∃ u ∈ s.users.keys, n ∈ userAuthNames s.users u ∧
    ∀ order, order.Perm (discoverUserIds s.inbounds s.users) →
    (getUserAuthMap s.inbounds s.users order).get? n = some u

/-- An account operation on valid ids that assigns no name of another user: a SOCKS username has no
outer blanks, is no other registered id and, with the reserved prefix, is the user's own alias; and
an existing user is not addressed by another user's SOCKS username. -/
def Allowed (s : Node) : Operation → Prop
  | .createUser request => validUserId request.userId = true ∧ (.socks ∈ request.protocols →
      MayTake s request.userId request.effectiveSocksUsername ∧
        (startsWith request.effectiveSocksUsername userPrefix = true →
          request.effectiveSocksUsername = authName request.userId))
  | .credentials u _ socksUsername _ =>
    validUserId u = true ∧ Unshared s u ∧
      (socksUsername.getD "" ≠ "" → MayTake s u (socksUsername.getD ""))
  | .bindProxy u proxy sync _ =>
    validUserId u = true ∧ Unshared s u ∧ (sync = true → MayTake s u (proxy.username.getD ""))
  | .deleteUser u => validUserId u = true ∧ Unshared s u
  | .migrateLegacySocksUsernames => True
  | _ => False

instance (s : Node) (u : String) : Decidable (Unshared s u) := by unfold Unshared; infer_instance

instance (s : Node) (u x : String) : Decidable (MayTake s u x) := by unfold MayTake; infer_instance

instance (s : Node) (op : Operation) : Decidable (Allowed s op) := by
  rcases op <;> (unfold Allowed; infer_instance)

variable {h : Host} {s s' : Node} {u : String}

theorem users_rotateWhen {newUuid : Option String} (hok : rotateWhen h u newUuid s = .ok s') :
    s'.users = s.users := by
  obtain rfl | ⟨_, _, _, _, rfl⟩ := rotateWhen_ok hok <;> rfl

theorem separate_step {op : Operation} (hs : Separate h s) (ha : Allowed s op) :
    Separate h (mutateConfig h op s) := by
  apply orUnchanged_invariant hs
  intro s' hok
  cases op with
  | createUser request => exact Separate.createUser hs ha.1 ha.2 hok
  | credentials u uuid socksUsername socksPassword =>
    obtain ⟨hvalid, hshared, hmay⟩ := ha
    obtain ⟨hexists, s₁, hrotate, hsync⟩ := credentials_ok hok
    have husers := users_rotateWhen hrotate
    apply Separate.syncWhen (Separate.rotateWhen hs hrotate) _ _ hsync
    · rw [husers]
      exact hs.registered hvalid hshared hexists
    intro hrequested
    rw [MayTake, husers]
    exact hmay (by simpa using hrequested)
  | bindProxy u proxy sync newUuid =>
    obtain ⟨hvalid, hshared, hmay⟩ := ha
    obtain ⟨hexists, s₁, s₂, hrotate, hsync, hbind⟩ := bindProxy_ok hok
    have husers := users_rotateWhen hrotate
    have hu : u ∈ s₁.users.keys := by
      rw [husers]
      exact hs.registered hvalid hshared hexists
    have hs₂ : Separate h s₂ := by
      apply Separate.syncWhen (Separate.rotateWhen hs hrotate) hu _ hsync
      intro hrequested
      rw [MayTake, husers]
      exact hmay hrequested
    apply Separate.setProxyBinding hs₂ _ hbind
    obtain rfl | ⟨_, _, _, rfl, _⟩ := syncWhen_ok hsync
    · exact hu
    · exact mem_keys_update.mpr (Or.inl rfl)
  | deleteUser u =>
    cases hok
    exact Separate.deleteUser hs ha.1 ha.2
  | migrateLegacySocksUsernames =>
    cases hok
    exact Separate.migrate hs
  | _ => exact ha.elim

theorem separate_empty (hrows : s.users.keys = [])
    (hentries : ∀ inbound ∈ s.inbounds, inbound.users = []) :
    Separate h s := by
  have hkeys : ∀ v, v ∉ s.users.keys := by
    intro v
    rw [hrows]
    exact List.not_mem_nil
  have hlisted : ∀ tag login, ¬ Listed s.inbounds tag login := by
    rintro tag login ⟨user, ⟨inbound, hi, _, hu⟩, _⟩
    rw [hentries inbound hi] at hu
    exact List.not_mem_nil hu
  have hrec : ∀ v n, recorded s.users v ≠ some n := fun v n hr => hkeys v (mem_keys_of_recorded hr)
  exact ⟨fun v hv => (hkeys v hv).elim, fun tag n hn => (hlisted tag _ hn).elim,
    fun tag n hn => (hlisted tag _ hn).elim, fun v n hr => (hrec v n hr).elim,
    fun v n hr => (hrec v n hr).elim, fun v n hr => (hrec v n hr).elim⟩

/-- The last visited user that enters the name decides; with one candidate the order is
irrelevant. -/
theorem get?_getUserAuthMap {inbounds : List Inbound} {users : Users} {order : List String}
    {n : String} (hu : u ∈ order) (hn : n ∈ mappedNames inbounds users u)
    (honly : ∀ v ∈ order, n ∈ mappedNames inbounds users v → v = u) :
    (getUserAuthMap inbounds users order).get? n = some u := by
  induction order using List.reverseRecOn with
  | nil => cases hu
  | append_singleton order v ih =>
    rw [getUserAuthMap, List.foldl_append, List.foldl_cons, List.foldl_nil, Dict.get?_foldl_set]
    split_ifs with hv
    · rw [honly v (by simp) hv]
    apply ih
    · rcases List.mem_append.mp hu with hu | hu
      · exact hu
      · rw [List.mem_singleton.mp hu] at hn
        exact (hv hn).elim
    · intro w hw
      exact honly w (List.mem_append_left _ hw)

theorem registered_of_discovered (hs : Separate h s) (hu : u ∈ discoverUserIds s.inbounds s.users) :
    u ∈ s.users.keys := by
  simp only [discoverUserIds, List.mem_dedup, List.mem_append, List.mem_filter, List.mem_flatMap,
    List.mem_filterMap, Option.mem_toList, extractUserId_eq_some] at hu
  rcases hu with hu | ⟨⟨inbound, hi, user, huser, n, hn, rfl⟩, _⟩
  · exact hu
  have hentry : Entry s.inbounds inbound.tag user := ⟨inbound, hi, rfl, huser⟩
  rcases hn with hn | hn
  · obtain ⟨v, hv, he⟩ := hs.named inbound.tag _ ⟨user, hentry, name_eq_some.mp hn⟩
    rw [authName_injective he]
    exact hv
  · obtain ⟨_, v, hr⟩ := hs.usernamed inbound.tag _ ⟨user, hentry, username_eq_some.mp hn⟩
    rw [authName_injective ((hs.usable v _ hr).2.2 (startsWith_iff.mpr ⟨u, rfl⟩))]
    exact mem_keys_of_recorded hr

theorem mem_discoverUserIds_of_registered (hu : u ∈ s.users.keys) :
    u ∈ discoverUserIds s.inbounds s.users := by
  rw [discoverUserIds, List.mem_dedup]
  exact List.mem_append_left _ hu

theorem mappedUniquely_of_separate (hs : Separate h s) : MappedUniquely s := by
  intro n hn
  obtain ⟨tag, user, he, hl⟩ := authIdentifierExists_iff.mp hn
  obtain ⟨u, hu, hnu⟩ := hs.exists_owner he hl
  have hne : n ≠ "" := by
    rintro rfl
    exact empty_not_mem_userAuthNames (validUserId_ne_empty (hs.valid u hu)) hnu
  have hinstalled : n ∈ installedNames s u := by
    rw [installedNames, List.mem_filter, decide_eq_true_eq]
    exact ⟨hnu, mem_existingAuthNames.mpr ⟨hne, hn⟩⟩
  refine ⟨u, hu, hnu, ?_⟩
  intro order horder
  apply get?_getUserAuthMap (horder.mem_iff.mpr (mem_discoverUserIds_of_registered hu))
    (installed_mem_mappedNames hinstalled)
  intro v hv hnv
  have hvkey := registered_of_discovered hs (horder.mem_iff.mp hv)
  exact hs.owner_unique (hs.valid u hu) (hs.unshared hu) hvkey hnu (mappedNames_subset hnv)

/-- Auth names stay apart along every run of account operations that assign no name of another
user. -/
theorem auth_names_never_collide (h : Host) (ops : List Operation) (s : Node)
    (hrows : s.users.keys = []) (hentries : ∀ inbound ∈ s.inbounds, inbound.users = [])
    (hp : Permitted (mutateConfig h) Allowed ops s) :
    NamesDisjoint (run (mutateConfig h) ops s) ∧ MappedUniquely (run (mutateConfig h) ops s) := by
  have hinv : Separate h (run (mutateConfig h) ops s) :=
    run_invariant (fun _ _ hs ha => separate_step hs ha) (separate_empty hrows hentries) hp
  exact ⟨hinv.namesDisjoint, mappedUniquely_of_separate hinv⟩

def emptyNode : Node := { inbounds := [{ tag := "vless-reality" }, { tag := "socks" }] }

def createVless (userId : String) : Operation :=
  .createUser { userId := userId, protocols := [.vless] }

def createSocks (userId username : String) : Operation :=
  .createUser { userId := userId, protocols := [.vless, .socks], socksUsername := some username }

def accountRun : List Operation :=
  [createVless "v", createSocks "w" "node-manager:w", .migrateLegacySocksUsernames,
    .credentials "w" none (some "exit") (some "p"), .deleteUser "v"]

theorem account_run_names_apart :
    (run (mutateConfig default) accountRun emptyNode).users.keys = ["w"] ∧
      authIdentifierExists (run (mutateConfig default) accountRun emptyNode).inbounds
      "exit" = true ∧
      NamesDisjoint (run (mutateConfig default) accountRun emptyNode) ∧
      MappedUniquely (run (mutateConfig default) accountRun emptyNode) :=
  ⟨by decide, by decide, auth_names_never_collide default accountRun emptyNode (by decide)
    (by decide) (by decide)⟩

/-- A creation may take the id of a user without a SOCKS entry as its SOCKS username; the map then
depends on the order of the two ids. -/
theorem socks_username_is_another_id :
    emptyNode.users.keys = [] ∧ (∀ inbound ∈ emptyNode.inbounds, inbound.users = []) ∧
      (run (mutateConfig default) [createVless "v", createSocks "w" "v"] emptyNode).users.keys =
      ["v", "w"] ∧
      "v" ∈ userAuthNames (run (mutateConfig default) [createVless "v", createSocks "w" "v"]
        emptyNode).users "v" ∧
      "v" ∈ userAuthNames (run (mutateConfig default) [createVless "v", createSocks "w" "v"]
        emptyNode).users "w" ∧
      (getUserAuthMap (run (mutateConfig default) [createVless "v", createSocks "w" "v"]
        emptyNode).inbounds (run (mutateConfig default) [createVless "v", createSocks "w" "v"]
        emptyNode).users ["v", "w"]).get? "v" =
        some "w" ∧
      (getUserAuthMap (run (mutateConfig default) [createVless "v", createSocks "w" "v"]
        emptyNode).inbounds (run (mutateConfig default) [createVless "v", createSocks "w" "v"]
        emptyNode).users ["w", "v"]).get? "v" =
        some "v" := by
  decide

end NodeManager.AuthMap
