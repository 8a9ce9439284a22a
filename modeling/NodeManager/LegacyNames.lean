import NodeManager.AuthNameSteps

namespace NodeManager.LegacyNames

open Text Singbox Identities Credentials Accounts AuthNames AuthNameSteps

variable {h : Host} {s : Node} {u v n : String} {users : Users} {ids names : List String}
  {tag : String} {user : InboundUser}

theorem mem_socksUsernames {inbounds : List Inbound} :
    n ∈ socksUsernames h inbounds ↔ Listed inbounds h.socksTag (.username n) := by
  simp only [socksUsernames, List.mem_flatMap, List.mem_filter, List.mem_filterMap,
    decide_eq_true_eq]
  constructor
  · rintro ⟨inbound, ⟨hi, htag⟩, user, hu, hn⟩
    exact ⟨user, ⟨inbound, hi, htag, hu⟩, username_eq_some.mp hn⟩
  · rintro ⟨user, ⟨inbound, hi, htag, hu⟩, hl⟩
    exact ⟨inbound, ⟨hi, htag⟩, user, hu, username_eq_some.mpr hl⟩

theorem migratedId_iff (hs : Separate h s) (hn : Listed s.inbounds h.socksTag (.username n)) :
    migratedId (socksUsernames h s.inbounds) n = some v ↔ n = authName v := by
  rw [migratedId, Option.filter_eq_some_iff, extractUserId_eq_some, decide_eq_true_eq,
    mem_socksUsernames]
  refine ⟨And.left, ?_⟩
  rintro rfl
  obtain ⟨_, w, hr⟩ := hs.usernamed _ _ hn
  obtain rfl : v = w := authName_injective ((hs.usable w _ hr).2.2 (startsWith_iff.mpr ⟨v, rfl⟩))
  have hv := mem_keys_of_recorded hr
  refine ⟨rfl, validUserId_ne_empty (hs.valid v hv), ?_⟩
  intro hl
  obtain ⟨_, w, hrw⟩ := hs.usernamed _ _ hl
  by_cases hw : v = w
  · rw [← hw, hr, Option.some_inj] at hrw
    exact validUserId_ne_authName (hs.valid v hv) v hrw.symm
  · exact (hs.apart w v hrw v hv hw).1 rfl

theorem recorded_migrateRow (hu : validUserId u = true)
    (hr : recorded users u = some (authName u) ∨ recorded users u = some u) :
    recorded (migrateRow users u) v = if v = u then some u else recorded users v := by
  unfold migrateRow
  rw [recorded_update]
  by_cases hv : v = u
  · rw [if_pos hv, if_pos hv]
    rw [recorded] at hr
    rcases hr with hr | hr
    · rw [if_pos (Or.inr hr)]
    rw [if_neg, hr]
    rintro (he | he)
    · rw [hr] at he
      exact validUserId_ne_empty hu he
    · rw [hr, Option.some_inj] at he
      exact validUserId_ne_authName hu u he
  · rw [if_neg hv, if_neg hv]

theorem recorded_foldl_migrateRow (hids : ∀ u ∈ ids, validUserId u = true)
    (hr : ∀ u ∈ ids, recorded users u = some (authName u) ∨ recorded users u = some u) :
    recorded (ids.foldl migrateRow users) v = if v ∈ ids then some v else recorded users v := by
  induction ids generalizing users with
  | nil => simp
  | cons u ids ih =>
    have hu := recorded_migrateRow (v := v) (hids u List.mem_cons_self) (hr u List.mem_cons_self)
    rw [List.foldl_cons, ih (fun w hw => hids w (List.mem_cons_of_mem u hw)), hu]
    · by_cases hv : v ∈ ids
      · simp [hv]
      · by_cases hvu : v = u <;> simp [hv, hvu]
    intro w hw
    rw [recorded_migrateRow (hids u List.mem_cons_self) (hr u List.mem_cons_self)]
    split_ifs with hwu
    · exact Or.inr (by rw [hwu])
    · exact hr w (List.mem_cons_of_mem u hw)

theorem mem_keys_foldl_migrateRow :
    v ∈ (ids.foldl migrateRow users).keys ↔ v ∈ ids ∨ v ∈ users.keys := by
  induction ids generalizing users with
  | nil => simp
  | cons u ids ih =>
    rw [List.foldl_cons, ih, migrateRow, mem_keys_update, List.mem_cons]
    tauto

theorem migrateEntry_name : (migrateEntry h names tag user).login = .name n ↔
    user.login = .name n := by
  unfold migrateEntry
  split_ifs
  · split
    next v hv =>
      obtain ⟨m, hm, _⟩ := Option.bind_eq_some_iff.mp hv
      rw [username_eq_some.mp hm]
      simp
    next => rfl
  · rfl

theorem migrateEntry_username {m : String} (hl : user.login = .username m) :
    (migrateEntry h names h.socksTag user).login = .username ((migratedId names m).getD m) := by
  rw [migrateEntry, if_pos rfl, username_eq_some.mpr hl, Option.bind_some]
  split
  next v hv => rw [hv, Option.getD_some]
  next hv => rw [hv, Option.getD_none, hl]

theorem migrateEntry_anonymous (hl : user.login = .anonymous) :
    (migrateEntry h names tag user).login = .anonymous := by
  have hnone : user.username = none := by rw [InboundUser.username, hl]
  rw [migrateEntry, hnone, Option.bind_none]
  split_ifs <;> exact hl

def migratedName (users : Users) (u : String) : Option String :=
  if recorded users u = some (authName u) then some u else recorded users u

section

variable (hs : Separate h s)
include hs

theorem migratedId_getD (hr : recorded s.users v = some n) :
    some ((migratedId (socksUsernames h s.inbounds) n).getD n) = migratedName s.users v := by
  have hl := hs.listed v n hr
  unfold migratedName
  split_ifs with ha
  · rw [hr, Option.some_inj] at ha
    rw [(migratedId_iff hs hl).mpr ha, Option.getD_some]
  have hnone : migratedId (socksUsernames h s.inbounds) n = none := by
    by_contra hsome
    obtain ⟨w, hw⟩ := Option.ne_none_iff_exists'.mp hsome
    have hn := (migratedId_iff hs hl).mp hw
    apply ha
    rw [hr, ← (hs.usable v n hr).2.2 (startsWith_iff.mpr ⟨w, hn⟩)]
  rw [hnone, Option.getD_none, hr]

theorem listed_migrate_username :
    Listed (mapUsers (migrateEntry h (socksUsernames h s.inbounds)) s.inbounds) tag (.username n) ↔
      tag = h.socksTag ∧ ∃ v, migratedName s.users v = some n := by
  constructor
  · rintro ⟨user, he, hl⟩
    obtain ⟨old, hold, rfl⟩ := entry_mapUsers.mp he
    cases hlogin : old.login with
    | name m =>
      cases (migrateEntry_name.mpr hlogin).symm.trans hl
    | anonymous =>
      cases (migrateEntry_anonymous hlogin).symm.trans hl
    | username m =>
      obtain ⟨rfl, v, hr⟩ := hs.usernamed tag m ⟨old, hold, hlogin⟩
      rw [migrateEntry_username hlogin, Login.username.injEq] at hl
      exact ⟨rfl, v, by rw [← migratedId_getD hs hr, hl]⟩
  · rintro ⟨rfl, v, hv⟩
    have hr : ∃ m, recorded s.users v = some m := by
      unfold migratedName at hv
      split_ifs at hv with ha
      · exact ⟨_, ha⟩
      · exact ⟨n, hv⟩
    obtain ⟨m, hr⟩ := hr
    obtain ⟨user, he, hl⟩ := hs.listed v m hr
    refine ⟨_, entry_mapUsers.mpr ⟨user, he, rfl⟩, ?_⟩
    rw [migrateEntry_username hl, Login.username.injEq, ← Option.some_inj,
      migratedId_getD hs hr, hv]

theorem mem_migrated : v ∈ (socksUsernames h s.inbounds).filterMap
    (migratedId (socksUsernames h s.inbounds)) ↔
      recorded s.users v = some (authName v) := by
  simp only [List.mem_filterMap, mem_socksUsernames]
  constructor
  · rintro ⟨n, hl, hid⟩
    obtain rfl := (migratedId_iff hs hl).mp hid
    obtain ⟨_, w, hr⟩ := hs.usernamed _ _ hl
    obtain rfl : v = w := authName_injective ((hs.usable w _ hr).2.2 (startsWith_iff.mpr ⟨v, rfl⟩))
    exact hr
  · intro hr
    exact ⟨authName v, hs.listed v _ hr, (migratedId_iff hs (hs.listed v _ hr)).mpr rfl⟩

theorem recorded_migrate : recorded (migrateLegacySocksUsernames h s).users v =
    migratedName s.users v := by
  unfold migrateLegacySocksUsernames migratedName
  rw [recorded_foldl_migrateRow]
  · simp only [mem_migrated hs]
  · intro u hu
    exact hs.valid u (mem_keys_of_recorded ((mem_migrated hs).mp hu))
  · intro u hu
    exact Or.inl ((mem_migrated hs).mp hu)

theorem mem_keys_migrate : v ∈ (migrateLegacySocksUsernames h s).users.keys ↔ v ∈ s.users.keys := by
  refine mem_keys_foldl_migrateRow.trans ⟨?_, Or.inr⟩
  rintro (hv | hv)
  · exact mem_keys_of_recorded ((mem_migrated hs).mp hv)
  · exact hv

theorem Separate.migrate : Separate h (migrateLegacySocksUsernames h s) := by
  have hcase : ∀ v n, migratedName s.users v = some n →
      (n = v ∧ recorded s.users v = some (authName v)) ∨ recorded s.users v = some n := by
    intro v n hv
    unfold migratedName at hv
    split_ifs at hv with ha
    · exact Or.inl ⟨(Option.some_inj.mp hv).symm, ha⟩
    · exact Or.inr hv
  refine ⟨?_, ?_, ?_, ?_, ?_, ?_⟩
  · intro v hv
    exact hs.valid v ((mem_keys_migrate hs).mp hv)
  · rintro tag n ⟨user, he, hl⟩
    obtain ⟨old, hold, rfl⟩ := entry_mapUsers.mp he
    simp only [mem_keys_migrate hs]
    exact hs.named tag n ⟨old, hold, migrateEntry_name.mp hl⟩
  · intro tag n hn
    simp only [recorded_migrate hs]
    exact (listed_migrate_username hs).mp hn
  · intro v n hr
    rw [recorded_migrate hs] at hr
    exact (listed_migrate_username hs).mpr ⟨rfl, v, hr⟩
  · intro v n hr
    rw [recorded_migrate hs] at hr
    rcases hcase v n hr with ⟨rfl, hr⟩ | hr
    · exact Usable.of_valid (hs.valid n (mem_keys_of_recorded hr))
    · exact hs.usable v n hr
  · intro v n hr w hw hne
    rw [recorded_migrate hs] at hr ⊢
    rw [mem_keys_migrate hs] at hw
    rcases hcase v n hr with ⟨rfl, hr⟩ | hr
    · refine ⟨Ne.symm hne, ?_⟩
      intro hrw
      rcases hcase w n hrw with ⟨he, _⟩ | hrw
      · exact hne he.symm
      · exact (hs.apart w n hrw n (mem_keys_of_recorded hr) (Ne.symm hne)).1 rfl
    · refine ⟨(hs.apart v n hr w hw hne).1, ?_⟩
      intro hrw
      rcases hcase w n hrw with ⟨he, _⟩ | hrw
      · exact (hs.apart v n hr w hw hne).1 he
      · exact (hs.apart v n hr w hw hne).2 hrw

end

end NodeManager.LegacyNames
