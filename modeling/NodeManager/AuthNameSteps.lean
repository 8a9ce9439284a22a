import NodeManager.AuthNames

namespace NodeManager.AuthNameSteps

open Text Dictionary Singbox Identities Bindings Credentials Accounts AuthNames

variable {h : Host} {s s' : Node} {u : String} {inbounds : List Inbound} {tag v x password : String}
  {login : Login} {request : CreateUser} {names : List String}

/-- The user may take the name: it has no outer blanks and is no other registered user's id. -/
def MayTake (s : Node) (u x : String) : Prop := strip x = x ∧ ∀ v ∈ s.users.keys, v ≠ u → x ≠ v

theorem listed_mapUsers {f : String → InboundUser → InboundUser}
    (hf : ∀ tag user, (f tag user).login = user.login) :
    Listed (mapUsers f inbounds) tag login ↔ Listed inbounds tag login := by
  constructor
  · rintro ⟨user, he, rfl⟩
    obtain ⟨old, hold, rfl⟩ := entry_mapUsers.mp he
    exact ⟨old, hold, (hf tag old).symm⟩
  · rintro ⟨user, he, rfl⟩
    exact ⟨f tag user, entry_mapUsers.mpr ⟨user, he, rfl⟩, hf tag user⟩

theorem recorded_set (users : Users) (u : String) (m : Metadata) (v : String) :
    recorded (users.set u m) v = if v = u then m.socksUsername else recorded users v := by
  rw [recorded, registryUser, Dict.get?_set]
  split_ifs <;> rfl

theorem recorded_erase (users : Users) (u v : String) :
    recorded (users.erase u) v = if v = u then none else recorded users v := by
  rw [recorded, registryUser, Dict.get?_erase]
  split_ifs <;> rfl

theorem recorded_update (users : Users) (u : String) (f : Metadata → Metadata) (v : String) :
    recorded ((users.setDefault u {}).modify u f) v =
      if v = u then (f (registryUser users u)).socksUsername else recorded users v := by
  rw [recorded, registryUser, Dict.get?_modify, Dict.get?_setDefault]
  split_ifs with hv
  · rfl
  · rfl

theorem mem_keys_update {users : Users} {u : String} {f : Metadata → Metadata} :
    v ∈ ((users.setDefault u {}).modify u f).keys ↔ v = u ∨ v ∈ users.keys := by
  rw [Dict.keys_modify, Dict.mem_keys_setDefault]

theorem Separate.rotateWhen (hs : Separate h s) {newUuid : Option String}
    (hok : rotateWhen h u newUuid s = .ok s') : Separate h s' := by
  obtain rfl | ⟨parsed, _, _, _, rfl⟩ := rotateWhen_ok hok
  · exact hs
  · exact hs.congr (fun _ => Iff.rfl) (fun _ => rfl)
      (fun _ _ => listed_mapUsers (rotateEntry_login h _ _))

theorem recorded_saveProxyMetadata (h : Host) (u : String) (proxy : Proxy) (s : Node) (v : String) :
    recorded (saveProxyMetadata h u proxy s).users v = recorded s.users v := by
  unfold saveProxyMetadata
  rw [recorded_update]
  split_ifs with hv
  · subst hv
    rfl
  · rfl

theorem Separate.setProxyBinding (hs : Separate h s) (hu : u ∈ s.users.keys) {proxy : Proxy}
    (hok : setProxyBinding h u proxy (saveProxyMetadata h u proxy s) = .ok s') : Separate h s' := by
  obtain ⟨rfl, _, _⟩ := setProxyBinding_ok hok
  refine hs.congr ?_ (recorded_saveProxyMetadata h u proxy s) (fun _ _ => Iff.rfl)
  intro v
  refine mem_keys_update.trans ⟨?_, Or.inr⟩
  rintro (rfl | hv)
  · exact hu
  · exact hv

theorem bindCreated_frame (hu : request.userId ∈ s.users.keys)
    (hok : bindCreated h request s = .ok s') :
    s'.inbounds = s.inbounds ∧ (∀ v, v ∈ s'.users.keys ↔ v ∈ s.users.keys) ∧
      ∀ v, recorded s'.users v = recorded s.users v := by
  unfold bindCreated at hok
  split at hok
  next proxy _ =>
    obtain ⟨rfl, _, _⟩ := setProxyBinding_ok hok
    refine ⟨rfl, ?_, recorded_saveProxyMetadata h _ proxy s⟩
    intro v
    refine mem_keys_update.trans ⟨?_, Or.inr⟩
    rintro (rfl | hv)
    · exact hu
    · exact hv
  next =>
    cases hok
    obtain ⟨hin, husers, _⟩ := setDirectBinding_false request.userId s
    rw [hin, husers]
    exact ⟨rfl, fun _ => Iff.rfl, fun _ => rfl⟩

theorem listed_installUser {inbounds' : List Inbound}
    (hok : installUser h request inbounds = .ok inbounds') :
    Listed inbounds' tag login ↔ Listed inbounds tag login ∨
      ∃ p ∈ request.protocols, tag = protocolTag h p ∧ login = (request.entry p).login := by
  constructor
  · rintro ⟨user, he, rfl⟩
    rcases (entry_installUser hok).mp he with he | ⟨p, hp, htag, rfl⟩
    · exact Or.inl ⟨user, he, rfl⟩
    · exact Or.inr ⟨p, hp, htag, rfl⟩
  · rintro (⟨user, he, rfl⟩ | ⟨p, hp, htag, rfl⟩)
    · exact ⟨user, (entry_installUser hok).mpr (Or.inl he), rfl⟩
    · exact ⟨_, (entry_installUser hok).mpr (Or.inr ⟨p, hp, htag, rfl⟩), rfl⟩

theorem login_entry {p : Protocol} {n : String} :
    ((request.entry p).login = .name n → n = authName request.userId) ∧
      ((request.entry p).login = .username n → p = .socks ∧
        n = request.effectiveSocksUsername) := by
  cases p <;> simp [CreateUser.entry, eq_comm]

theorem effectiveSocksUsername_ne_empty (hu : request.userId ≠ "") :
    request.effectiveSocksUsername ≠ "" := by
  unfold CreateUser.effectiveSocksUsername
  split_ifs with hne
  · exact hne
  · exact hu

theorem not_recorded_of_absent (hs : Separate h s)
    (habsent : authIdentifierExists s.inbounds x = false) (v : String) :
    recorded s.users v ≠ some x := by
  intro hr
  obtain ⟨user, he, hl⟩ := hs.listed v x hr
  rw [authIdentifierExists_iff.mpr ⟨_, user, he, Or.inr hl⟩] at habsent
  cases habsent

theorem not_recorded_of_not_exists (hs : Separate h s)
    (hnot : userExists s.inbounds s.users u = false) {n : String}
    (hn : n ∈ userAuthNames s.users u) : recorded s.users v ≠ some n := by
  intro hr
  obtain ⟨user, he, hl⟩ := hs.listed v n hr
  rw [userExists_iff.mpr ⟨_, user, he, carries_iff.mpr ⟨n, hn, Or.inr hl⟩⟩] at hnot
  cases hnot

/-- Creation keeps the names apart: what is installed is refused, and the request takes no reserved
name. -/
theorem Separate.createUser (hs : Separate h s) (hvalid : validUserId request.userId = true)
    (htake : .socks ∈ request.protocols → MayTake s request.userId request.effectiveSocksUsername ∧
    (startsWith request.effectiveSocksUsername userPrefix = true →
    request.effectiveSocksUsername = authName request.userId))
    (hok : createUser h request s = .ok s') : Separate h s' := by
  obtain ⟨hnot, hfree, inbounds, hinstall, _, hbind⟩ := createUser_ok hok
  obtain ⟨hin, hkeys, hrec⟩ := bindCreated_frame (Dict.mem_keys_set.mpr (Or.inl rfl)) hbind
  have hs₀ : Separate h { s with
      inbounds := inbounds, users := s.users.set request.userId request.metadata } := by
    have hold : ∀ v n, recorded s.users v = some n → v ≠ request.userId := by
      rintro v n hr rfl
      exact not_recorded_of_not_exists hs hnot (hs.mem_names.mpr (Or.inr (Or.inr hr))) hr
    have hnew : ∀ n, request.metadata.socksUsername = some n →
        .socks ∈ request.protocols ∧ n = request.effectiveSocksUsername := by
      intro n hn
      simp only [CreateUser.metadata] at hn
      split_ifs at hn with hp
      exact ⟨hp, (Option.some_inj.mp hn).symm⟩
    refine ⟨?_, ?_, ?_, ?_, ?_, ?_⟩
    · intro v hv
      rcases Dict.mem_keys_set.mp hv with rfl | hv
      · exact hvalid
      · exact hs.valid v hv
    · intro tag n hn
      rcases (listed_installUser hinstall).mp hn with hn | ⟨p, _, _, hlogin⟩
      · obtain ⟨v, hv, rfl⟩ := hs.named tag n hn
        exact ⟨v, Dict.mem_keys_set.mpr (Or.inr hv), rfl⟩
      · exact ⟨_, Dict.mem_keys_set.mpr (Or.inl rfl), login_entry.1 hlogin.symm⟩
    · intro tag n hn
      rcases (listed_installUser hinstall).mp hn with hn | ⟨p, hp, htag, hlogin⟩
      · obtain ⟨htag, v, hr⟩ := hs.usernamed tag n hn
        exact ⟨htag, v, by rw [recorded_set, if_neg (hold v n hr)]; exact hr⟩
      obtain ⟨rfl, rfl⟩ := login_entry.2 hlogin.symm
      refine ⟨htag, request.userId, ?_⟩
      rw [recorded_set, if_pos rfl, CreateUser.metadata, if_pos hp]
    · intro v n hr
      rw [recorded_set] at hr
      split_ifs at hr with hv
      · obtain ⟨hp, rfl⟩ := hnew n hr
        exact (listed_installUser hinstall).mpr (Or.inr ⟨.socks, hp, rfl, rfl⟩)
      · exact (listed_installUser hinstall).mpr (Or.inl (hs.listed v n hr))
    · intro v n hr
      rw [recorded_set] at hr
      split_ifs at hr with hv
      · obtain ⟨hp, rfl⟩ := hnew n hr
        obtain ⟨hmay, hreserved⟩ := htake hp
        rw [hv]
        exact ⟨effectiveSocksUsername_ne_empty (validUserId_ne_empty hvalid), hmay.1, hreserved⟩
      · exact hs.usable v n hr
    · intro v n hr w hw hne
      rw [recorded_set] at hr
      rw [recorded_set]
      split_ifs at hr with hv
      · obtain ⟨hp, rfl⟩ := hnew n hr
        rw [hv] at hne
        rw [if_neg hne]
        have hw : w ∈ s.users.keys := (Dict.mem_keys_set.mp hw).resolve_left hne
        exact ⟨(htake hp).1.2 w hw hne, not_recorded_of_absent hs (hfree hp) w⟩
      · split_ifs with hwu
        · refine ⟨?_, ?_⟩
          · rintro rfl
            rw [hwu] at hr
            exact not_recorded_of_not_exists hs hnot (hs.mem_names.mpr (Or.inr (Or.inl rfl))) hr
          · intro hm
            obtain ⟨hp, rfl⟩ := hnew n hm
            exact not_recorded_of_absent hs (hfree hp) v hr
        · exact hs.apart v n hr w ((Dict.mem_keys_set.mp hw).resolve_left hwu) hne
  exact hs₀.congr hkeys hrec (fun tag login => by rw [hin])

theorem listed_withoutUsers : Listed (withoutUsers names inbounds) tag login ↔
      Listed inbounds tag login ∧ ∀ n, login = .name n ∨ login = .username n → n ∉ names := by
  constructor
  · rintro ⟨user, he, rfl⟩
    obtain ⟨he, hc⟩ := entry_withoutUsers.mp he
    refine ⟨⟨user, he, rfl⟩, ?_⟩
    intro n hl hn
    rw [carries_iff.mpr ⟨n, hn, hl⟩] at hc
    cases hc
  · rintro ⟨⟨user, he, rfl⟩, hnot⟩
    refine ⟨user, entry_withoutUsers.mpr ⟨he, ?_⟩, rfl⟩
    rw [Bool.eq_false_iff, ne_eq, carries_iff]
    rintro ⟨n, hn, hl⟩
    exact hnot n hl hn

theorem Separate.deleteUser (hs : Separate h s) (hu : validUserId u = true)
    (hshared : Unshared s u) :
    Separate h (deleteUser u s) := by
  have hother : ∀ v n, recorded (s.users.erase u) v = some n → v ≠ u ∧
      recorded s.users v = some n := by
    intro v n hr
    rw [recorded_erase] at hr
    split_ifs at hr with hv
    exact ⟨hv, hr⟩
  refine ⟨?_, ?_, ?_, ?_, ?_, ?_⟩
  · intro v hv
    exact hs.valid v (Dict.mem_keys_erase.mp hv).2
  · intro tag n hn
    obtain ⟨hn, hnot⟩ := listed_withoutUsers.mp hn
    obtain ⟨v, hv, rfl⟩ := hs.named tag n hn
    refine ⟨v, Dict.mem_keys_erase.mpr ⟨?_, hv⟩, rfl⟩
    rintro rfl
    exact hnot _ (Or.inl rfl) (authName_mem s.users v)
  · intro tag n hn
    obtain ⟨hn, hnot⟩ := listed_withoutUsers.mp hn
    obtain ⟨htag, v, hr⟩ := hs.usernamed tag n hn
    refine ⟨htag, v, ?_⟩
    change recorded (s.users.erase u) v = some n
    rw [recorded_erase, if_neg]
    · exact hr
    · rintro rfl
      exact hnot n (Or.inr rfl) (hs.mem_names.mpr (Or.inr (Or.inr hr)))
  · intro v n hr
    obtain ⟨hv, hr⟩ := hother v n hr
    refine listed_withoutUsers.mpr ⟨hs.listed v n hr, ?_⟩
    rintro m (hl | hl) hm
    · cases hl
    · cases hl
      exact hv (hs.owner_unique hu hshared (mem_keys_of_recorded hr) hm
        (hs.mem_names.mpr (Or.inr (Or.inr hr))))
  · intro v n hr
    exact hs.usable v n (hother v n hr).2
  · intro v n hr w hw hne
    obtain ⟨hwu, hw⟩ := Dict.mem_keys_erase.mp hw
    change n ≠ w ∧ recorded (s.users.erase u) w ≠ some n
    rw [recorded_erase, if_neg hwu]
    exact hs.apart v n (hother v n hr).2 w hw hne

theorem listed_renameEntry : Listed (mapUsers (renameEntry h names x password) inbounds) tag login ↔
      (Listed inbounds tag login ∧ ∀ n, login = .username n → tag = h.socksTag → n ∉ names) ∨
        (tag = h.socksTag ∧ login = .username x ∧
          ∃ n ∈ names, Listed inbounds h.socksTag (.username n)) := by
  constructor
  · rintro ⟨user, he, rfl⟩
    obtain ⟨old, hold, rfl⟩ := entry_mapUsers.mp he
    unfold renameEntry
    split_ifs with ht
    · obtain ⟨rfl, n, hn, hl⟩ := isTarget_iff.mp ht
      exact Or.inr ⟨rfl, rfl, n, hn, old, hold, hl⟩
    refine Or.inl ⟨⟨old, hold, rfl⟩, ?_⟩
    intro n hl htag hn
    exact ht (isTarget_iff.mpr ⟨htag, n, hn, hl⟩)
  · rintro (⟨⟨user, he, rfl⟩, hnot⟩ | ⟨rfl, rfl, n, hn, user, he, hl⟩)
    · refine ⟨user, entry_mapUsers.mpr ⟨user, he, ?_⟩, rfl⟩
      rw [renameEntry, if_neg]
      intro ht
      obtain ⟨htag, n, hn, hl⟩ := isTarget_iff.mp ht
      exact hnot n hl htag hn
    · refine ⟨_, entry_mapUsers.mpr ⟨user, he, rfl⟩, ?_⟩
      rw [renameEntry, if_pos (isTarget_iff.mpr ⟨rfl, n, hn, hl⟩)]

theorem not_recorded_of_not_taken (hs : Separate h s) (hu : u ∈ s.users.keys)
    (htaken : usernameTaken h (userAuthNames s.users u) x s.inbounds = false) (hv : v ≠ u) :
    recorded s.users v ≠ some x := by
  intro hr
  obtain ⟨user, he, hl⟩ := hs.listed v x hr
  have htarget : isTarget h (userAuthNames s.users u) h.socksTag user = false := by
    rw [Bool.eq_false_iff, ne_eq, isTarget_iff]
    rintro ⟨_, n, hn, hl'⟩
    rw [hl, Login.username.injEq] at hl'
    rw [← hl'] at hn
    exact hv (hs.owner_unique (hs.valid u hu) (hs.unshared hu) (mem_keys_of_recorded hr) hn
      (hs.mem_names.mpr (Or.inr (Or.inr hr))))
  have hcarries : user.carries [x] = true :=
    carries_iff.mpr ⟨x, List.mem_singleton.mpr rfl, Or.inr hl⟩
  rw [usernameTaken_iff.mpr ⟨_, user, he, hcarries, htarget⟩] at htaken
  cases htaken

theorem Separate.renameUser (hs : Separate h s) (hu : u ∈ s.users.keys) (hx : x ≠ "")
    (hreserved : startsWith x userPrefix = false) (hmay : MayTake s u x)
    (hreplaced : replacedNames h (userAuthNames s.users u) s.inbounds ≠ [])
    (htaken : usernameTaken h (userAuthNames s.users u) x s.inbounds = false) :
    Separate h (renameUser h u x password s) := by
  have hrec : ∀ v, recorded (Credentials.renameUser h u x password s).users v =
      if v = u then some x else recorded s.users v := recorded_update s.users u _
  have hkeys : ∀ v, v ∈ (Credentials.renameUser h u x password s).users.keys ↔
      v ∈ s.users.keys := by
    intro v
    refine mem_keys_update.trans ⟨?_, Or.inr⟩
    rintro (rfl | hv)
    · exact hu
    · exact hv
  refine ⟨?_, ?_, ?_, ?_, ?_, ?_⟩
  · intro v hv
    exact hs.valid v ((hkeys v).mp hv)
  · intro tag n hn
    rcases listed_renameEntry.mp hn with ⟨hn, _⟩ | ⟨_, hl, _⟩
    · simp only [hkeys]
      exact hs.named tag n hn
    · cases hl
  · intro tag n hn
    rcases listed_renameEntry.mp hn with ⟨hn, hnot⟩ | ⟨htag, hl, _⟩
    · obtain ⟨htag, v, hr⟩ := hs.usernamed tag n hn
      refine ⟨htag, v, ?_⟩
      rw [hrec, if_neg]
      · exact hr
      · rintro rfl
        exact hnot n rfl htag (hs.mem_names.mpr (Or.inr (Or.inr hr)))
    · cases hl
      exact ⟨htag, u, by rw [hrec, if_pos rfl]⟩
  · intro v n hr
    rw [hrec] at hr
    split_ifs at hr with hv
    · cases hr
      obtain ⟨m, hm⟩ := List.exists_mem_of_ne_nil _ hreplaced
      obtain ⟨hmem, user, he, hl⟩ := mem_replacedNames.mp hm
      exact listed_renameEntry.mpr (Or.inr ⟨rfl, rfl, m, hmem, user, he, hl⟩)
    refine listed_renameEntry.mpr (Or.inl ⟨hs.listed v n hr, ?_⟩)
    intro m hl _ hm
    cases hl
    exact hv (hs.owner_unique (hs.valid u hu) (hs.unshared hu) (mem_keys_of_recorded hr) hm
      (hs.mem_names.mpr (Or.inr (Or.inr hr))))
  · intro v n hr
    rw [hrec] at hr
    split_ifs at hr with hv
    · cases hr
      refine ⟨hx, hmay.1, ?_⟩
      intro hp
      cases hreserved.symm.trans hp
    · exact hs.usable v n hr
  · intro v n hr w hw hne
    rw [hrec] at hr
    rw [hrec]
    rw [hkeys] at hw
    split_ifs at hr with hv
    · cases hr
      rw [hv] at hne
      rw [if_neg hne]
      exact ⟨hmay.2 w hw hne, not_recorded_of_not_taken hs hu htaken hne⟩
    refine ⟨(hs.apart v n hr w hw hne).1, ?_⟩
    split_ifs with hwu
    · rintro he
      cases he
      exact not_recorded_of_not_taken hs hu htaken hv hr
    · exact (hs.apart v n hr w hw hne).2

theorem Separate.syncWhen (hs : Separate h s) (hu : u ∈ s.users.keys) {requested : Bool}
    (hmay : requested = true → MayTake s u x) (hok : syncWhen h u requested x password s = .ok s') :
    Separate h s' := by
  obtain rfl | ⟨hx, hreserved, hrequested, rfl, hreplaced, htaken⟩ := syncWhen_ok hok
  · exact hs
  · exact Separate.renameUser hs hu hx hreserved (hmay hrequested) hreplaced htaken

end NodeManager.AuthNameSteps
