import NodeManager.UserFrame

namespace NodeManager.UserFrameTasks

open Dictionary Singbox Identities Occurrences Outcomes DenyRules Bindings Credentials Accounts
  Operations UserViews UserFrame

variable {h : Host} {s s' : Node} {u v : String} {proxy : Proxy} {newUuid : Option String}

theorem rulesFor_deleteUser_iff
    (hd : (userAuthNames s.users u).Disjoint (userAuthNames s.users v)) :
    rulesFor (userAuthNames s.users v) (deleteUser u s).rules =
    rulesFor (userAuthNames s.users v) s.rules ↔
      RulesApart h s (.deleteUser u) u v := by
  obtain ⟨_, _, hp⟩ := names_of_disjoint hd
  have hafter : publicAfter h s (.deleteUser u) u ∉ userAuthNames s.users v := hp
  have hsub : (deleteUser u s).rules.Sublist s.rules := by
    rw [rules_deleteUser]
    exact List.filter_sublist.trans (List.diff_sublist _ _)
  rw [rulesFor_eq_iff_of_sublist hsub, rules_deleteUser, List.filter_comm, filter_diff, RulesApart]
  generalize hL : s.rules.filter (·.touches (userAuthNames s.users v)) = L
  have hmem : ∀ rule, rule ∈ L ↔ rule ∈ s.rules ∧
      rule.touches (userAuthNames s.users v) = true := by
    intro rule
    rw [← hL, List.mem_filter]
  constructor
  · intro heq
    have hdiff : L.diff (managedExpirationRules (registryUser s.users u)) = L := by
      apply (List.diff_sublist _ _).antisymm
      conv_lhs => rw [← heq]
      exact List.filter_sublist
    rw [hdiff, List.filter_eq_self] at heq
    refine ⟨fun hn => (hafter hn).elim, ?_⟩
    intro _ rule hr ht
    have hrule := (hmem rule).mpr ⟨hr, ht⟩
    obtain ⟨henforce, hroute⟩ := of_decide_eq_true (heq rule hrule)
    refine ⟨hroute, ?_⟩
    rw [dropped, managedRules, List.mem_append]
    rintro (he | he)
    · exact diff_eq_self_iff.mp hdiff rule he hrule
    · exact henforce he
  · rintro ⟨_, hall⟩
    have hkeep : ∀ rule ∈ L, rule.outbound ≠ some (outboundTag u) ∧
        rule ∉ managedRules (registryUser s.users u) := by
      intro rule hrule
      obtain ⟨hr, ht⟩ := (hmem rule).mp hrule
      exact hall hafter rule hr ht
    have hdiff : L.diff (managedExpirationRules (registryUser s.users u)) = L := by
      apply diff_eq_self_iff.mpr
      intro rule he hrule
      exact (hkeep rule hrule).2 (List.mem_append_left _ he)
    rw [hdiff, List.filter_eq_self]
    intro rule hrule
    exact decide_eq_true ⟨fun he => (hkeep rule hrule).2 (List.mem_append_right _ he),
      (hkeep rule hrule).1⟩

theorem untouched_deleteUser (hd : (userAuthNames s.users u).Disjoint (userAuthNames s.users v))
    (hne : v ≠ u) :
    Untouched v s (deleteUser u s) ↔ Apart h s (.deleteUser u) u v := by
  apply untouched_iff_apart
  · exact (Dict.get?_erase _ _ _).trans (if_neg hne)
  · exact ⟨fun _ _ hx => (Option.not_mem_none _ hx).elim,
      fun _ => entriesFor_withoutUsers hd s.inbounds⟩
  · simp only [deleteUser, replaces, described, decide_not, List.append_nil]
  · intro _
    exact rulesFor_deleteUser_iff hd

section Rotation

variable (hd : (userAuthNames s.users u).Disjoint (userAuthNames s.users v)) {x password : String}
include hd

theorem entriesFor_rotateWhen {newUuid : Option String} {s₁ : Node}
    (hok : rotateWhen h u newUuid s = .ok s₁) :
    entriesFor (userAuthNames s.users v) s₁.inbounds =
    entriesFor (userAuthNames s.users v) s.inbounds := by
  obtain rfl | ⟨parsed, _, _, _, rfl⟩ := rotateWhen_ok hok
  · rfl
  apply entriesFor_mapUsers
  · intro tag user hc
    unfold rotateEntry
    split
    · rw [if_neg (by rw [not_carries_of_disjoint hd hc]; exact Bool.false_ne_true)]
    · rfl
  · intro tag user _ hc
    rw [carries_iff] at hc ⊢
    rw [rotateEntry_login] at hc
    exact hc

theorem renameEntry_of_carries {tag : String} {user : InboundUser}
    (hc : user.carries (userAuthNames s.users v) = true) :
    renameEntry h (userAuthNames s.users u) x password tag user = user := by
  rw [renameEntry, if_neg]
  intro ht
  obtain ⟨_, n, hn, hl⟩ := isTarget_iff.mp ht
  have hnot := not_carries_of_disjoint hd hc
  rw [carries_iff.mpr ⟨n, hn, Or.inr hl⟩] at hnot
  cases hnot

theorem entriesFor_renameUser_iff
    (hreplaced : replacedNames h (userAuthNames s.users u) s.inbounds ≠ []) :
    entriesFor (userAuthNames s.users v) (renameUser h u x password s).inbounds =
      entriesFor (userAuthNames s.users v) s.inbounds ↔ x ∉ userAuthNames s.users v := by
  have hkeep : ∀ tag user, user.carries (userAuthNames s.users v) = true →
      renameEntry h (userAuthNames s.users u) x password tag user = user :=
    fun _ _ hc => renameEntry_of_carries hd hc
  constructor
  · intro heq hx
    obtain ⟨n, hn⟩ := List.exists_mem_of_ne_nil _ hreplaced
    obtain ⟨hmem, user, he, hl⟩ := mem_replacedNames.mp hn
    have hold : user.carries (userAuthNames s.users u) = true :=
      carries_iff.mpr ⟨n, hmem, Or.inr hl⟩
    refine entriesFor_mapUsers_ne hkeep he ?_ ?_ heq
    · exact not_carries_of_disjoint hd.symm hold
    · rw [renameEntry, if_pos (isTarget_iff.mpr ⟨rfl, n, hmem, hl⟩)]
      exact carries_iff.mpr ⟨x, hx, Or.inr rfl⟩
  · intro hx
    apply entriesFor_mapUsers hkeep
    intro tag user _ hc
    unfold renameEntry at hc
    split_ifs at hc
    · obtain ⟨n, hn, hl | hl⟩ := carries_iff.mp hc
      · cases hl
      · cases hl
        exact (hx hn).elim
    · exact hc

theorem rulesFor_renameUser (hx : x ∉ userAuthNames s.users v) :
    rulesFor (userAuthNames s.users v) (withoutRoute u (renameUser h u x password s).rules) =
      rulesFor (userAuthNames s.users v) (withoutRoute u s.rules) := by
  have hreplaced : (replacedNames h (userAuthNames s.users u) s.inbounds).Disjoint
    (userAuthNames s.users v) :=
    fun _ hn => hd (replacedNames_subset hn)
  unfold renameUser
  rw [withoutRoute_map_renameRule, rulesFor_map_renameRule hx hreplaced]

end Rotation

theorem rotated_views {sync : Bool} {s₁ s₂ : Node}
    (hd : (userAuthNames s.users u).Disjoint (userAuthNames s.users v)) (hne : v ≠ u)
    (hrotate : rotateWhen h u newUuid s = .ok s₁)
    (hsync : syncWhen h u sync (proxy.username.getD "") (proxy.password.getD "") s₁ = .ok s₂) :
    s₂.outbounds = s.outbounds ∧ s₂.users.get? v = s.users.get? v ∧
      (entriesFor (userAuthNames s.users v) s₂.inbounds =
        entriesFor (userAuthNames s.users v) s.inbounds ↔
        ∀ x ∈ requestedUsername (.bindProxy u proxy sync newUuid),
          replacedNames h (userAuthNames s.users u) s.inbounds ≠ [] → x ∉ userAuthNames s.users v) ∧
      ((∀ x ∈ requestedUsername (.bindProxy u proxy sync newUuid),
          replacedNames h (userAuthNames s.users u) s.inbounds ≠ [] → x ∉ userAuthNames s.users v) →
        rulesFor (userAuthNames s.users v) (withoutRoute u s₂.rules) =
          rulesFor (userAuthNames s.users v) (withoutRoute u s.rules)) := by
  have hentries := entriesFor_rotateWhen hd hrotate
  obtain ⟨hout, husers, hrules, hnames⟩ : s₁.outbounds = s.outbounds ∧ s₁.users = s.users ∧
      s₁.rules = s.rules ∧
      replacedNames h (userAuthNames s.users u) s₁.inbounds =
      replacedNames h (userAuthNames s.users u) s.inbounds := by
    obtain rfl | ⟨_, _, _, _, rfl⟩ := rotateWhen_ok hrotate
    · exact ⟨rfl, rfl, rfl, rfl⟩
    · exact ⟨rfl, rfl, rfl, replacedNames_mapUsers (rotateEntry_login h _ _) h _ _⟩
  rw [← husers] at hd hnames hentries ⊢
  rw [← hnames, ← hentries, ← hout, ← hrules]
  unfold syncWhen at hsync
  cases sync with
  | false =>
    cases hsync
    exact ⟨rfl, rfl, ⟨fun _ _ hx => (Option.not_mem_none _ hx).elim, fun _ => rfl⟩, fun _ => rfl⟩
  | true =>
    simp only [requestedUsername, Option.mem_some_iff, forall_eq']
    obtain ⟨_, _, ⟨rfl, hnone⟩ | ⟨rfl, hreplaced, _⟩⟩ := updateSocksCredentials_ok hsync
    · exact ⟨rfl, rfl, ⟨fun _ hno => (hno hnone).elim, fun _ => rfl⟩, fun _ => rfl⟩
    refine ⟨rfl, get?_update_of_ne hne, ?_, fun hx => rulesFor_renameUser hd (hx hreplaced)⟩
    rw [entriesFor_renameUser_iff hd hreplaced]
    exact ⟨fun hx _ => hx, fun hx => hx hreplaced⟩

theorem untouched_bindProxy {sync : Bool}
    (hd : (userAuthNames s.users u).Disjoint (userAuthNames s.users v)) (hne : v ≠ u)
    (hok : bindProxy h u proxy sync newUuid s = .ok s') :
    Untouched v s s' ↔ Apart h s (.bindProxy u proxy sync newUuid) u v := by
  obtain ⟨_, s₁, s₂, hrotate, hsync, hbind⟩ := bindProxy_ok hok
  obtain ⟨rfl, _, _⟩ := setProxyBinding_ok hbind
  obtain ⟨hout, hrow, hentries, hrules⟩ := rotated_views hd hne hrotate hsync
  have hrotated : orUnchanged (rotated h s (.bindProxy u proxy sync newUuid)) s = s₂ := by
    rw [rotated, rotateFor, hrotate, ok_bind, hsync, orUnchanged]
  apply untouched_iff_apart
  · exact (get?_update_of_ne hne).trans hrow
  · exact hentries
  · simp only [rebuildRoute, insertRoute, withProxyOutbound, saveProxyMetadata, hout, replaces,
      described, decide_not]
  intro hx
  obtain ⟨ha, hu, _⟩ := names_of_disjoint hd
  have hpublic : publicSocksUsername
      (withProxyOutbound u proxy (saveProxyMetadata h u proxy s₂)).users u =
      publicAfter h s (.bindProxy u proxy sync newUuid) u := by
    rw [publicAfter, hrotated]
    exact publicSocksUsername_congr (socksUsername_saveProxyMetadata h u proxy s₂)
  have hplace : place (userAuthNames s.users v) u
      (withProxyOutbound u proxy (saveProxyMetadata h u proxy s₂)) =
      place (userAuthNames s.users v) u s₂ := by
    exact place_congr rfl (managedRules_saveProxyMetadata h u proxy s₂)
  have hwithout : rulesFor (userAuthNames s.users v)
      (withoutRoute u (withProxyOutbound u proxy (saveProxyMetadata h u proxy s₂)).rules) =
        rulesFor (userAuthNames s.users v) (withoutRoute u s.rules) := hrules hx
  rw [rulesFor_rebuildRoute ha hu, hpublic, hplace, hwithout, RulesApart, hrotated]
  by_cases hp : publicAfter h s (.bindProxy u proxy sync newUuid) u ∈ userAuthNames s.users v
  · rw [if_pos hp]
    exact ⟨fun heq => ⟨fun _ => heq.symm, fun hn => (hn hp).elim⟩, fun hall => (hall.1 hp).symm⟩
  rw [if_neg hp, withoutRoute, rulesFor_filter_iff]
  constructor
  · intro hall
    refine ⟨fun hn => (hp hn).elim, ?_⟩
    intro _ rule hr ht
    exact ⟨of_decide_eq_true (hall rule hr ht), List.not_mem_nil⟩
  · rintro ⟨_, hall⟩ rule hr ht
    exact decide_eq_true (hall hp rule hr ht).1

/-- An exit or deletion task on `u` leaves another user as it was exactly if the two stand apart. -/
theorem task_leaves_user_iff (h : Host) (op : Operation) (s s' : Node) (u v : String)
    (htarget : target op = some u) (hne : v ≠ u)
    (hd : (userAuthNames s.users u).Disjoint (userAuthNames s.users v))
    (hok : perform h op s = .ok s') : Untouched v s s' ↔ Apart h s op u v := by
  cases op with
  | bindProxy w proxy sync newUuid =>
    obtain rfl : w = u := Option.some_inj.mp htarget
    exact untouched_bindProxy hd hne hok
  | bindMultipleProxies w proxies balancing =>
    obtain rfl : w = u := Option.some_inj.mp htarget
    exact untouched_bindMultipleProxies hd hne hok
  | direct w =>
    obtain rfl : w = u := Option.some_inj.mp htarget
    exact untouched_direct hd hne hok
  | deleteUser w =>
    obtain rfl : w = u := Option.some_inj.mp htarget
    cases hok
    exact untouched_deleteUser hd hne
  | _ => cases htarget

def exit (server : String) : Proxy := { server := server, port := 1080 }

def twoUsers (u v : String) : Node where
  inbounds := [{ tag := "vless-reality", users := [{ login := .name (authName u) },
    { login := .name (authName v) }] }]
  outbounds := [{ type := .direct, tag := outboundTag u },
    { type := .direct, tag := outboundTag v }]
  rules := [.route [authName u] (outboundTag u), .route [authName v] (outboundTag v)]
  users := Dict.set (Dict.set Dict.empty u {}) v {}

def balance (u : String) : Operation :=
  .bindMultipleProxies u [exit "198.51.100.1", exit "198.51.100.2"] {}

theorem balancing_leaves_other_user :
    Untouched "b" (twoUsers "a" "b") (mutateConfig default (balance "a") (twoUsers "a" "b")) :=
  (task_leaves_user_iff default (balance "a") (twoUsers "a" "b")
    (mutateConfig default (balance "a") (twoUsers "a" "b")) "a" "b" rfl (by decide)
    (by unfold List.Disjoint; decide)
    rfl).mpr (by decide)

/-- Binding several exits to `a` also drops the outbound of the user `a-b`. -/
theorem balancing_drops_other_exit :
    NamesDisjoint (twoUsers "a" "a-b") ∧ validUserId "a" = true ∧ validUserId "a-b" = true ∧
      outboundTag "a-b" ∈ reachedTags (twoUsers "a" "a-b") "a-b" ∧
      outboundsAt (outboundTag "a-b") (twoUsers "a" "a-b").outbounds =
      [{ type := .direct, tag := outboundTag "a-b" }] ∧
      outboundsAt (outboundTag "a-b")
      (mutateConfig default (balance "a") (twoUsers "a" "a-b")).outbounds = [] := by
  decide

end NodeManager.UserFrameTasks
