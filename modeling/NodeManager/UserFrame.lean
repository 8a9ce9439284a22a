import NodeManager.UserViews

namespace NodeManager.UserFrame

open Text Dictionary Singbox Identities Occurrences Outcomes DenyRules Bindings Credentials Accounts
  Operations UserViews

def target : Operation → Option String
  | .bindProxy u _ _ _ | .bindMultipleProxies u _ _ | .direct u | .deleteUser u => some u
  | _ => none

def replaces (u : String) : Operation → String → Bool
  | .bindMultipleProxies _ _ _, tag => isCleared u tag
  | _, tag => tag = outboundTag u

def described (u : String) : Operation → List Outbound
  | .bindProxy _ proxy _ _ =>
    [socksOutbound (outboundTag u) (proxyServer proxy) proxy.port proxy.username proxy.password]
  | .bindMultipleProxies _ proxies balancing =>
    let members := memberOutbounds u 0 (proxies.map upstream)
    members ++ [aggregateOutbound u balancing (members.map (·.tag))]
  | .direct _ => [{ type := .direct, tag := outboundTag u }]
  | _ => []

def dropped (s : Node) (u : String) : Operation → List Rule
  | .deleteUser _ => managedRules (registryUser s.users u)
  | _ => []

def rotated (h : Host) (s : Node) : Operation → Except String Node
  | .bindProxy u proxy sync newUuid => rotateFor h u proxy sync newUuid s
  | _ => .ok s

/-- How many rules naming the holder of the names precede the place of a rebuilt route. -/
def place (names : List String) (u : String) (s : Node) : Nat :=
  let rules := withoutRoute u s.rules
  (rules.take (afterManagedEnforcementRules rules (registryUser s.users u))).countP
    (·.touches names)

def publicAfter (h : Host) (s : Node) (op : Operation) (u : String) : String :=
  publicSocksUsername (orUnchanged (rotated h s op) s).users u

def RulesApart (h : Host) (s : Node) (op : Operation) (u v : String) : Prop :=
  (publicAfter h s op u ∈ userAuthNames s.users v →
    rulesFor (userAuthNames s.users v) s.rules =
      insertAt (place (userAuthNames s.users v) u (orUnchanged (rotated h s op) s))
        (.route [publicAfter h s op u] (outboundTag u))
        (rulesFor (userAuthNames s.users v) (withoutRoute u s.rules))) ∧
  (publicAfter h s op u ∉ userAuthNames s.users v →
    ∀ rule ∈ s.rules, rule.touches (userAuthNames s.users v) = true →
      rule.outbound ≠ some (outboundTag u) ∧ rule ∉ dropped s u op)

/-- A rotation takes no name of `v`; where an outbound of `v` has a replaced tag the requested ones
already stand; and no rule of `v` is a route of `u` or a deny rule dropped with it, unless a
rotation to a padded name of `v` finds the route it writes in its place. -/
def Apart (h : Host) (s : Node) (op : Operation) (u v : String) : Prop :=
  (∀ x ∈ requestedUsername op, replacedNames h (userAuthNames s.users u) s.inbounds ≠ [] →
    x ∉ userAuthNames s.users v) ∧
  (∀ tag ∈ reachedTags s v, replaces u op tag = true →
    outboundsAt tag s.outbounds = outboundsAt tag (described u op)) ∧
  RulesApart h s op u v

instance (h : Host) (s : Node) (op : Operation) (u v : String) :
    Decidable (RulesApart h s op u v) := by
  unfold RulesApart; infer_instance

instance (h : Host) (s : Node) (op : Operation) (u v : String) : Decidable (Apart h s op u v) := by
  unfold Apart; infer_instance

variable {h : Host} {s s' : Node} {u v : String} {names : List String} {users : Users}

theorem isCleared_memberOutbounds {entries : List Upstream} {index : Nat} :
    ∀ outbound ∈ memberOutbounds u index entries, isCleared u outbound.tag = true := by
  induction entries generalizing index with
  | nil => simp [memberOutbounds]
  | cons entry entries ih =>
    intro outbound ho
    rw [memberOutbounds, List.mem_cons] at ho
    rcases ho with rfl | ho
    · rw [tag_socksOutbound, isCleared, Bool.or_eq_true]
      exact Or.inl (startsWith_iff.mpr ⟨toString index, rfl⟩)
    · exact ih outbound ho

theorem tag_aggregateOutbound (balancing : Balancing) (tags : List String) :
    (aggregateOutbound u balancing tags).tag = outboundTag u := by
  unfold aggregateOutbound
  split <;> rfl

theorem replaces_described (op : Operation) :
    ∀ outbound ∈ described u op, replaces u op outbound.tag = true := by
  intro outbound ho
  cases op with
  | bindProxy w proxy sync newUuid =>
    rw [described, List.mem_singleton] at ho
    rw [ho, tag_socksOutbound]
    exact decide_eq_true rfl
  | bindMultipleProxies w proxies balancing =>
    rcases List.mem_append.mp ho with ho | ho
    · exact isCleared_memberOutbounds outbound ho
    · rw [List.mem_singleton.mp ho, tag_aggregateOutbound, replaces, isCleared, Bool.or_eq_true]
      exact Or.inr (decide_eq_true rfl)
  | direct w =>
    rw [described, List.mem_singleton] at ho
    rw [ho]
    exact decide_eq_true rfl
  | _ => cases ho

theorem untouched_iff_apart {op : Operation} (hrow : s'.users.get? v = s.users.get? v)
    (hentries : entriesFor (userAuthNames s.users v) s'.inbounds =
      entriesFor (userAuthNames s.users v) s.inbounds ↔
      ∀ x ∈ requestedUsername op, replacedNames h (userAuthNames s.users u) s.inbounds ≠ [] →
        x ∉ userAuthNames s.users v)
    (hout : s'.outbounds = s.outbounds.filter (fun outbound => !replaces u op outbound.tag) ++
      described u op)
    (hrules : (∀ x ∈ requestedUsername op,
      replacedNames h (userAuthNames s.users u) s.inbounds ≠ [] →
        x ∉ userAuthNames s.users v) →
      (rulesFor (userAuthNames s.users v) s'.rules = rulesFor (userAuthNames s.users v) s.rules ↔
        RulesApart h s op u v)) :
    Untouched v s s' ↔ Apart h s op u v := by
  have hat : ∀ tag, outboundsAt tag s'.outbounds =
      if replaces u op tag then outboundsAt tag (described u op)
      else outboundsAt tag s.outbounds := by
    intro tag
    rw [hout]
    exact @outboundsAt_replace (replaces u op) s.outbounds (described u op)
      (replaces_described op) tag
  constructor
  · rintro ⟨_, he, ho, hr⟩
    have hx := hentries.mp he
    have htags : ∀ tag ∈ reachedTags s v, replaces u op tag = true →
        outboundsAt tag s.outbounds = outboundsAt tag (described u op) := by
      intro tag ht hrep
      rw [← ho tag ht, hat, if_pos hrep]
    exact ⟨hx, htags, (hrules hx).mp hr⟩
  · rintro ⟨hx, ho, hr⟩
    refine ⟨hrow, hentries.mpr hx, ?_, (hrules hx).mpr hr⟩
    intro tag ht
    rw [hat]
    split_ifs with hrep
    · exact (ho tag ht hrep).symm
    · rfl

section Rebuild

theorem mem_routeAuthNames {t : Node} {n : String} (hn : n ∈ routeAuthNames t.inbounds t.users u) :
    n = authName u ∨ n = u ∨ n = publicSocksUsername t.users u := by
  simp only [routeAuthNames, List.mem_append, List.mem_cons, List.not_mem_nil, or_false] at hn
  rcases hn with (hn | hn) | hn
  · exact Or.inl hn
  · exact Or.inr (Or.inr hn)
  split_ifs at hn
  · exact Or.inr (Or.inl (List.mem_singleton.mp hn))
  · cases hn

variable (ha : authName u ∉ names) (hu : u ∉ names)
include ha hu

theorem touches_routeRule {t : Node} :
    (routeRule t u).touches names = decide (publicSocksUsername t.users u ∈ names) := by
  rw [Bool.eq_iff_iff, Rule.touches_iff, decide_eq_true_eq]
  simp only [routeRule, Rule.names_route, mem_sortedSet]
  constructor
  · rintro ⟨n, hn, hmem⟩
    rcases mem_routeAuthNames hn with rfl | rfl | rfl
    · exact (ha hmem).elim
    · exact (hu hmem).elim
    · exact hmem
  · intro hmem
    exact ⟨_, by simp [routeAuthNames], hmem⟩

theorem ruleFor_routeRule {t : Node} (hp : publicSocksUsername t.users u ∈ names) :
    ruleFor names (routeRule t u) = .route [publicSocksUsername t.users u] (outboundTag u) := by
  have hset : sortedSet ((sortedSet (routeAuthNames t.inbounds t.users u)).filter (· ∈ names)) =
      sortedSet [publicSocksUsername t.users u] := by
    apply sortedSet_congr
    intro n
    simp only [List.mem_filter, mem_sortedSet, decide_eq_true_eq, List.mem_singleton]
    constructor
    · rintro ⟨hn, hmem⟩
      rcases mem_routeAuthNames hn with rfl | rfl | rfl
      · exact (ha hmem).elim
      · exact (hu hmem).elim
      · rfl
    · rintro rfl
      exact ⟨by simp [routeAuthNames], hp⟩
  simp only [ruleFor, routeRule, Rule.names_route, hset]
  rfl

theorem rulesFor_rebuildRoute {t : Node} : rulesFor names (rebuildRoute u t).rules =
      if publicSocksUsername t.users u ∈ names then
        insertAt (place names u t) (.route [publicSocksUsername t.users u] (outboundTag u))
          (rulesFor names (withoutRoute u t.rules))
      else rulesFor names (withoutRoute u t.rules) := by
  have ht := @touches_routeRule u names ha hu { t with rules := withoutRoute u t.rules }
  split_ifs with hp
  · have hview := @ruleFor_routeRule u names ha hu { t with rules := withoutRoute u t.rules } hp
    rw [rebuildRoute, insertRoute,
      rulesFor_insertAt_of_touches (by rw [ht]; exact decide_eq_true hp), hview]
    rfl
  · rw [rebuildRoute, insertRoute, rulesFor_insertAt (by rw [ht]; exact decide_eq_false hp)]

end Rebuild

theorem place_congr {t : Node} (hrules : t.rules = s.rules)
    (hmanaged : managedRules (registryUser t.users u) = managedRules (registryUser s.users u)) :
    place names u t = place names u s := by
  simp only [place, afterManagedEnforcementRules, hrules, hmanaged]

theorem names_of_disjoint (hd : (userAuthNames users u).Disjoint names) :
    authName u ∉ names ∧ u ∉ names ∧ publicSocksUsername users u ∉ names :=
  ⟨fun hn => hd (mem_userAuthNames.mpr (Or.inl rfl)) hn,
    fun hn => hd (mem_userAuthNames.mpr (Or.inr (Or.inl rfl))) hn,
    fun hn => hd (mem_userAuthNames.mpr (Or.inr (Or.inr rfl))) hn⟩

theorem get?_update_of_ne {f : Metadata → Metadata} (hne : v ≠ u) :
    ((users.setDefault u {}).modify u f).get? v = users.get? v := by
  rw [Dict.get?_modify, if_neg hne, Dict.get?_setDefault, if_neg hne]

section

variable (hd : (userAuthNames s.users u).Disjoint (userAuthNames s.users v))
include hd

theorem rulesFor_rebuild_iff {op : Operation} {t : Node}
    (hrotated : rotated h s op = .ok s) (hdropped : dropped s u op = [])
    (hrules : t.rules = s.rules) (hsocks : (registryUser t.users u).socksUsername =
      (registryUser s.users u).socksUsername) :
    rulesFor (userAuthNames s.users v) (rebuildRoute u t).rules =
    rulesFor (userAuthNames s.users v) s.rules ↔
      RulesApart h s op u v := by
  obtain ⟨ha, hu, hp⟩ := names_of_disjoint hd
  have hafter : publicAfter h s op u = publicSocksUsername s.users u := by
    rw [publicAfter, hrotated, orUnchanged]
  rw [rulesFor_rebuildRoute ha hu, publicSocksUsername_congr hsocks, if_neg hp, hrules,
    withoutRoute, rulesFor_filter_iff, RulesApart, hafter, hdropped]
  constructor
  · intro hall
    refine ⟨fun hn => (hp hn).elim, ?_⟩
    intro _ rule hr ht
    exact ⟨of_decide_eq_true (hall rule hr ht), List.not_mem_nil⟩
  · rintro ⟨_, hall⟩ rule hr ht
    exact decide_eq_true (hall hp rule hr ht).1

theorem untouched_direct (hne : v ≠ u) (hok : direct u s = .ok s') :
    Untouched v s s' ↔ Apart h s (.direct u) u v := by
  obtain ⟨_, rfl⟩ := direct_ok hok
  have hsocks : (registryUser (s.users.modify u clearProxyMetadata) u).socksUsername =
      (registryUser s.users u).socksUsername := by
    rw [registryUser_modify rfl]
    rfl
  apply untouched_iff_apart
  · exact (Dict.get?_modify _ _ _ _).trans (if_neg hne)
  · exact ⟨fun _ _ hx => (Option.not_mem_none _ hx).elim, fun _ => rfl⟩
  · simp only [rebuildRoute, insertRoute, replaces, described, decide_not]
  · intro _
    exact rulesFor_rebuild_iff hd rfl rfl rfl hsocks

theorem untouched_bindMultipleProxies {proxies : List Proxy} {balancing : Balancing} (hne : v ≠ u)
    (hok : bindMultipleProxies h u proxies balancing s = .ok s') :
    Untouched v s s' ↔ Apart h s (.bindMultipleProxies u proxies balancing) u v := by
  obtain ⟨first, entries, hentries, _, rfl⟩ := bindMultipleProxies_ok hok
  rw [normalizeProxies_map hentries]
  apply untouched_iff_apart
  · exact get?_update_of_ne hne
  · exact ⟨fun _ _ hx => (Option.not_mem_none _ hx).elim, fun _ => rfl⟩
  · exact List.append_assoc _ _ _
  · intro _
    exact rulesFor_rebuild_iff hd rfl rfl rfl rfl

end

end NodeManager.UserFrame
