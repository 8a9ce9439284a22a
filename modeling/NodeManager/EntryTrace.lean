import NodeManager.Unblocking
import NodeManager.UserTrace

namespace NodeManager.EntryTrace

open Text Singbox Identities Outcomes DenyAccounting Bindings Credentials Accounts DenyRenaming
  AccountedOperations Unblocking UserTrace

variable {h : Host} {s₀ s s' : Node} {u : String} {names names' : List String}
  {inbounds inbounds' : List Inbound} {user : InboundUser} {f : String → InboundUser → InboundUser}
  {newUuid : Option String} {x password : String}

theorem withoutUsers_eq_self (hfree : ∀ tag user, Entry inbounds tag user →
    user.carries names = false) :
    withoutUsers names inbounds = inbounds := by
  refine (List.map_congr_left ?_).trans (List.map_id inbounds)
  intro inbound hi
  have hall : inbound.users.filter (fun user => !user.carries names) = inbound.users := by
    rw [List.filter_eq_self]
    intro user hu
    rw [hfree inbound.tag user ⟨inbound, hi, rfl, hu⟩]
    rfl
  rw [hall]
  rfl

theorem withoutUsers_appendUser {tag : String} (hc : user.carries names = true)
    (hok : appendUser tag user inbounds = .ok inbounds') :
    withoutUsers names inbounds' = withoutUsers names inbounds := by
  induction inbounds generalizing inbounds' with
  | nil => cases hok
  | cons inbound inbounds ih =>
    rw [appendUser] at hok
    split_ifs at hok
    · cases hok
      simp [withoutUsers, hc]
    obtain ⟨rest, hrest, heq⟩ := bind_eq_ok hok
    cases heq
    rw [withoutUsers, List.map_cons, ← withoutUsers, ih hrest, withoutUsers, withoutUsers,
      List.map_cons]

theorem withoutUsers_installEach {request : CreateUser}
    (hc : ∀ p ∈ request.protocols, (request.entry p).carries names = true)
    {protocols : List Protocol} (hok : installEach h request protocols inbounds = .ok inbounds') :
    withoutUsers names inbounds' = withoutUsers names inbounds := by
  induction protocols generalizing inbounds with
  | nil =>
    cases hok
    rfl
  | cons p protocols ih =>
    rw [installEach] at hok
    split_ifs at hok with hp
    · obtain ⟨mid, hmid, hrest⟩ := bind_eq_ok hok
      rw [ih hrest, withoutUsers_appendUser (hc p hp) hmid]
    · exact ih hok

/-- A map that keeps the entries of others and renames the carriers is not seen without the
carriers. -/
theorem withoutUsers_mapUsers (hkeep : ∀ tag user, Entry inbounds tag user →
    user.carries names = false →
    f tag user = user ∧ user.carries names' = false)
    (hmove : ∀ tag user, Entry inbounds tag user → user.carries names = true →
      (f tag user).carries names' = true) :
    withoutUsers names' (mapUsers f inbounds) = withoutUsers names inbounds := by
  unfold withoutUsers mapUsers
  rw [List.map_map]
  apply List.map_congr_left
  intro inbound hi
  have hcarries : ∀ user ∈ inbound.users,
      (f inbound.tag user).carries names' = user.carries names := by
    intro user hu
    have he : Entry inbounds inbound.tag user := ⟨inbound, hi, rfl, hu⟩
    cases hc : user.carries names with
    | true => exact hmove _ _ he hc
    | false =>
      obtain ⟨hsame, hnot⟩ := hkeep _ _ he hc
      rw [hsame, hnot]
  have husers : (inbound.users.map (f inbound.tag)).filter (fun user => !user.carries names') =
      inbound.users.filter (fun user => !user.carries names) := by
    rw [List.filter_map, List.filter_congr
      (fun user hu => by rw [Function.comp_apply, hcarries user hu])]
    refine (List.map_congr_left ?_).trans (List.map_id _)
    intro user hu
    obtain ⟨hu, hc⟩ := List.mem_filter.mp hu
    exact (hkeep _ _ ⟨inbound, hi, rfl, hu⟩ (by simpa using hc)).1
  rw [Function.comp_apply, husers]

theorem Added.mapUsers (hs : Added h u s₀ s)
    (hacc : AccountedBy recordedRules u s') (hin : s'.inbounds = mapUsers f s.inbounds)
    (hout : s'.outbounds = s.outbounds)
    (hkeep : ∀ tag user, Entry s.inbounds tag user →
      user.carries (userAuthNames s.users u) = false →
    f tag user = user ∧ user.carries (userAuthNames s'.users u) = false)
    (hmove : ∀ tag user, Entry s.inbounds tag user → user.carries (userAuthNames s.users u) = true →
    (f tag user).carries (userAuthNames s'.users u) = true ∧
    ((f tag user).login = .name (authName u) ∨
    (tag = h.socksTag ∧ ∃ n, (f tag user).login = .username n)))
    (hrules : ∀ rule ∈ s'.rules, rule.touches (userAuthNames s'.users u) = true →
    rule.action = .reject ∨ rule.outbound = some (outboundTag u)) : Added h u s₀ s' := by
  refine ⟨hacc, ?_, ?_, ?_, ?_, hrules⟩
  · obtain ⟨tag, user, he, hc⟩ := userExists_iff.mp hs.installed
    rw [userExists_iff, hin]
    exact ⟨tag, f tag user, entry_mapUsers.mpr ⟨user, he, rfl⟩, (hmove tag user he hc).1⟩
  · rw [hin, withoutUsers_mapUsers hkeep (fun tag user he hc => (hmove tag user he hc).1)]
    exact hs.entries
  · rw [hin]
    intro tag user he hc
    obtain ⟨old, hold, rfl⟩ := entry_mapUsers.mp he
    cases hcarried : old.carries (userAuthNames s.users u) with
    | true => exact (hmove tag old hold hcarried).2
    | false =>
      obtain ⟨hsame, hnot⟩ := hkeep tag old hold hcarried
      rw [hsame, hnot] at hc
      cases hc
  · rw [hout]
    exact hs.outbounds

theorem rotateEntry_of_not_carries {value tag : String} (hc : user.carries names = false) :
    rotateEntry h names value tag user = user := by
  unfold rotateEntry
  split
  · rw [hc]
    rfl
  · rfl

theorem carries_congr {user' : InboundUser} (hl : user'.login = user.login) :
    user'.carries names = user.carries names := by
  simp only [InboundUser.carries, InboundUser.name, InboundUser.username, hl]

theorem Added.rotateWhen (hs : Added h u s₀ s) (hok : rotateWhen h u newUuid s = .ok s') :
    Added h u s₀ s' := by
  have hacc := AccountedBy.rotateWhen hs.accounted hok
  obtain rfl | ⟨parsed, _, _, _, rfl⟩ := rotateWhen_ok hok
  · exact hs
  refine Added.mapUsers hs hacc rfl rfl ?_ ?_ hs.rules
  · intro tag user _ hc
    exact ⟨rotateEntry_of_not_carries hc, hc⟩
  intro tag user he hc
  rw [carries_congr (rotateEntry_login h _ _ tag user), rotateEntry_login]
  exact ⟨hc, hs.logins tag user he hc⟩

def Assignable (u : String) (s : Node) (x : String) : Prop :=
  strip x = x ∧ ∀ rule ∈ s.rules, publicName u x ∈ rule.names →
    rule.touches (userAuthNames s.users u) = true

instance (u : String) (s : Node) (x : String) : Decidable (Assignable u s x) := by
  unfold Assignable; infer_instance

theorem mem_names_of_stripped (hx : strip x = x) (hne : x ≠ "") :
    x ∈ [authName u, u, publicName u x] := by
  unfold publicName
  rw [hx]
  split_ifs with hpublic
  · rw [hpublic.resolve_left hne]
    exact List.mem_cons_self
  · simp

theorem carries_of_login {n : String} (hn : n ∈ names)
    (hl : user.login = .name n ∨ user.login = .username n) :
    user.carries names = true := carries_iff.mpr ⟨n, hn, hl⟩

theorem Added.renameUser (hs : Added h u s₀ s) (hx : x ≠ "") (hassign : Assignable u s x)
    (htaken : usernameTaken h (userAuthNames s.users u) x s.inbounds = false)
    (hpublic : publicName u x = x)
    (hacc : AccountedBy recordedRules u (renameUser h u x password s)) :
    Added h u s₀ (renameUser h u x password s) := by
  have hnames := @userAuthNames_renameUser x h u password s
  have hold : authName u ∈ userAuthNames s.users u ∧ u ∈ userAuthNames s.users u :=
    ⟨authName_mem s.users u, mem_userAuthNames.mpr (Or.inr (Or.inl rfl))⟩
  refine Added.mapUsers hs hacc rfl rfl ?_ ?_ ?_
  · intro tag user he hc
    have htarget : isTarget h (userAuthNames s.users u) tag user = false := by
      rw [Bool.eq_false_iff, ne_eq, isTarget_iff]
      rintro ⟨_, n, hn, hl⟩
      cases (carries_of_login hn (Or.inr hl)).symm.trans hc
    refine ⟨by rw [renameEntry, htarget]; rfl, ?_⟩
    rw [hnames, hpublic, Bool.eq_false_iff, ne_eq, carries_iff]
    rintro ⟨n, hn, hl⟩
    simp only [List.mem_cons, List.not_mem_nil, or_false] at hn
    rcases hn with rfl | rfl | rfl
    · cases (carries_of_login hold.1 hl).symm.trans hc
    · cases (carries_of_login hold.2 hl).symm.trans hc
    · rw [usernameTaken_iff.mpr ⟨tag, user, he, carries_of_login (List.mem_singleton.mpr rfl) hl,
        htarget⟩] at htaken
      cases htaken
  · intro tag user he hc
    rw [hnames]
    rcases hs.logins tag user he hc with hl | ⟨htag, n, hl⟩
    · have htarget : ¬ isTarget h (userAuthNames s.users u) tag user = true := by
        rw [isTarget_iff]
        rintro ⟨_, n, _, hl'⟩
        rw [hl] at hl'
        cases hl'
      rw [renameEntry, if_neg htarget]
      exact ⟨carries_of_login List.mem_cons_self (Or.inl hl), Or.inl hl⟩
    · obtain ⟨m, hm, hl'⟩ := carries_iff.mp hc
      have htarget : isTarget h (userAuthNames s.users u) tag user = true := by
        refine isTarget_iff.mpr ⟨htag, m, hm, hl'.resolve_left ?_⟩
        rw [hl]
        exact fun he => by cases he
      rw [renameEntry, if_pos htarget]
      exact ⟨carries_of_login (mem_names_of_stripped hassign.1 hx) (Or.inr rfl),
        Or.inr ⟨htag, x, rfl⟩⟩
  · rw [hnames]
    intro rule' hr' ht
    obtain ⟨rule, hr, rfl⟩ := List.mem_map.mp hr'
    have htouches := touches_of_touches_renameRule hold (fun n hn => replacedNames_subset hn)
      (hassign.2 rule hr) ht
    rw [Rule.outbound, action_renameRule]
    exact hs.rules rule hr htouches

def Rotatable (h : Host) (u : String) (s : Node) (x : String) : Prop :=
  RotationKeepsBlocks h u s x ∧ (replacedNames h (userAuthNames s.users u) s.inbounds ≠ [] →
    Assignable u s x)

instance (h : Host) (u : String) (s : Node) (x : String) : Decidable (Rotatable h u s x) := by
  unfold Rotatable; infer_instance

theorem Rotatable.rotateWhen (hr : Rotatable h u s x) (hok : rotateWhen h u newUuid s = .ok s') :
    Rotatable h u s' x := by
  refine ⟨hr.1.rotateWhen hok, ?_⟩
  obtain rfl | ⟨parsed, _, _, _, rfl⟩ := rotateWhen_ok hok
  · exact hr.2
  · rw [rotateUser, replacedNames_mapUsers (rotateEntry_login h _ _)]
    exact hr.2

theorem publicName_of_unreserved {x : String} (hx : strip x = x) (hne : x ≠ "")
    (hreserved : startsWith x userPrefix = false) : publicName u x = x := by
  unfold publicName
  rw [hx, if_neg]
  rintro (he | he)
  · exact hne he
  · rw [he, authName, startsWith_iff.mpr ⟨u, rfl⟩] at hreserved
    cases hreserved

theorem Added.syncWhen (hs : Added h u s₀ s) (hu : u ≠ "") {requested : Bool}
    (hr : requested = true → Rotatable h u s x)
    (hok : syncWhen h u requested x password s = .ok s') :
    Added h u s₀ s' := by
  obtain rfl | ⟨hx, hreserved, hrequested, rfl, hreplaced, htaken⟩ := syncWhen_ok hok
  · exact hs
  obtain ⟨haccess, hreject⟩ := (hr hrequested).1 hreplaced
  have hassign := (hr hrequested).2 hreplaced
  have hpublic := @publicName_of_unreserved u x hassign.1 hx hreserved
  exact Added.renameUser hs hx hassign htaken hpublic
    (AccountedBy.renameUser ledger_recordedRules hs.accounted hu hx haccess hreject)

theorem bindProxy_added (hs : Added h u s₀ s) (hu : u ≠ "") {proxy : Proxy} {sync : Bool}
    (hr : sync = true → Rotatable h u s (proxy.username.getD ""))
    (hok : bindProxy h u proxy sync newUuid s = .ok s') :
    Added h u s₀ s' := by
  obtain ⟨_, s₁, s₂, hrotate, hsync, hbind⟩ := bindProxy_ok hok
  have hs₁ := Added.rotateWhen hs hrotate
  have hs₂ := Added.syncWhen hs₁ hu (fun hrequested => (hr hrequested).rotateWhen hrotate) hsync
  exact hs₂.setProxyBinding hbind

end NodeManager.EntryTrace
