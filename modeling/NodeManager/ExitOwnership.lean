import NodeManager.Operations
import NodeManager.OutboundTags
import NodeManager.Runs

namespace NodeManager.ExitOwnership

open Text Singbox Identities Outcomes Bindings Operations OutboundTags

/-- Two SOCKS outbounds with one identity are the exit of a registered user and one of its
members. -/
def Shared (h : Host) (keys : List String) (a b : Outbound) : Prop :=
  outboundIdentity h a ≠ none → outboundIdentity h a = outboundIdentity h b →
    ∃ w ∈ keys, isUserProxyOutboundTag h a.tag w = true ∧ isUserProxyOutboundTag h b.tag w = true ∧
      (a.tag = outboundTag w ∨ b.tag = outboundTag w)

def Unambiguous (h : Host) (keys : List String) : Prop :=
  ∀ u ∈ keys, ∀ w ∈ keys, u ≠ w → isUserProxyOutboundTag h (outboundTag u) w = false

structure Exclusive (h : Host) (s : Node) : Prop where
  unambiguous : Unambiguous h s.users.keys
  shared : s.outbounds.Pairwise (Shared h s.users.keys)

def ExitsOwned (h : Host) (s : Node) : Prop :=
  ∀ a ∈ s.outbounds, ∀ b ∈ s.outbounds, ∀ u ∈ s.users.keys, ∀ w ∈ s.users.keys, u ≠ w →
    isUserProxyOutboundTag h a.tag u = true → isUserProxyOutboundTag h b.tag w = true →
      outboundIdentity h a ≠ none → outboundIdentity h a ≠ outboundIdentity h b

def Distinguishable (h : Host) (s : Node) (u : String) : Prop :=
  ∀ w ∈ s.users.keys, w ≠ u →
    isUserProxyOutboundTag h (outboundTag w) u = false ∧
    isUserProxyOutboundTag h (outboundTag u) w = false

def Named (proxy : Proxy) : Prop := proxy.username.getD "" = "" → proxy.password.getD "" = ""

def Allowed (h : Host) (s : Node) : Operation → Prop
  | .createUser request => Distinguishable h s request.userId ∧ ∀ proxy ∈ request.proxy, Named proxy
  | .bindProxy u proxy _ _ => Distinguishable h s u ∧ Named proxy
  | .bindMultipleProxies u proxies _ => Distinguishable h s u ∧ ∀ proxy ∈ proxies, Named proxy
  | .direct _ | .deleteUser _ => True
  | _ => False

instance (h : Host) (s : Node) (u : String) : Decidable (Distinguishable h s u) := by
  unfold Distinguishable; infer_instance

instance (proxy : Proxy) : Decidable (Named proxy) := by unfold Named; infer_instance

instance (h : Host) (s : Node) (op : Operation) : Decidable (Allowed h s op) := by
  rcases op <;> (unfold Allowed; infer_instance)

variable {h : Host} {s s' : Node} {u : String} {keys : List String} {a b : Outbound}
  {outbounds : List Outbound} {proxies : List Proxy} {entries : List Upstream}

theorem Shared.symm (hs : Shared h keys a b) : Shared h keys b a := by
  intro hb heq
  obtain ⟨w, hw, ha, hb, hown⟩ := hs (by rw [← heq]; exact hb) heq.symm
  exact ⟨w, hw, hb, ha, hown.symm⟩

instance (keys : List String) : Std.Symm (Shared h keys) := ⟨fun _ _ hs => hs.symm⟩

theorem Shared.mono {keys' : List String} (hsub : ∀ w ∈ keys, w ∈ keys') (hs : Shared h keys a b) :
    Shared h keys' a b := by
  intro ha heq
  obtain ⟨w, hw, hrest⟩ := hs ha heq
  exact ⟨w, hsub w hw, hrest⟩

theorem Exclusive.exitsOwned (hs : Exclusive h s) : ExitsOwned h s := by
  intro a ha b hb u hu w hw hne hau hbw hsome heq
  -- the tag of one registered user cannot be attributed to another
  have hown : ∀ {v x : String}, v ∈ s.users.keys → x ∈ s.users.keys →
      isUserProxyOutboundTag h (outboundTag v) x = true → v = x := by
    intro v x hv hx hvx
    by_contra hvne
    cases (hs.unambiguous v hv x hx hvne).symm.trans hvx
  have hsame : ∀ {tag v x : String}, v ∈ s.users.keys → x ∈ s.users.keys →
      isUserProxyOutboundTag h tag v = true → isUserProxyOutboundTag h tag x = true → v = x := by
    intro tag v x hv hx htv htx
    rcases own_tag_of_attributed htv htx with heq | rfl | rfl
    · exact heq
    · exact hown hv hx htx
    · exact (hown hx hv htv).symm
  by_cases hab : a = b
  · rw [← hab] at hbw
    exact hne (hsame hu hw hau hbw)
  · obtain ⟨x, hx, hax, hbx, _⟩ := hs.shared.forall ha hb hab hsome heq
    exact hne ((hsame hu hx hau hax).trans (hsame hw hx hbw hbx).symm)

theorem outboundIdentity_socksOutbound {tag server : String} {port : Nat}
    {username password : Option String} (hserver : server ≠ "") (hstrip : strip server = server)
    (hnamed : username.getD "" = "" → password.getD "" = "") :
    outboundIdentity h (socksOutbound tag server port username password) =
      some (proxyIdentity h server port username password) := by
  unfold socksOutbound
  split_ifs with hu
  · simp only [outboundIdentity, hstrip, if_neg hserver, proxyIdentity, Option.getD_some]
  · have hempty : username.getD "" = "" := by simpa using hu
    simp only [outboundIdentity, hstrip, if_neg hserver, proxyIdentity, Option.getD_none, hempty,
      hnamed hempty]

theorem attributed_of_available {identity : Identity} {outbound : Outbound}
    (havail : identity ∉ configuredProxyIdentities h outbounds u) (ho : outbound ∈ outbounds)
    (hid : outboundIdentity h outbound = some identity) :
    isUserProxyOutboundTag h outbound.tag u = true := by
  by_contra hnot
  apply havail
  rw [configuredProxyIdentities, List.mem_filterMap]
  refine ⟨outbound, List.mem_filter.mpr ⟨ho, ?_⟩, hid⟩
  rw [Bool.not_eq_true] at hnot
  rw [hnot, Bool.and_false, Bool.not_false]

theorem Shared.of_none (hb : outboundIdentity h b = none) : Shared h keys a b :=
  fun ha heq => (ha (heq.trans hb)).elim

theorem Distinguishable.unambiguous (hdist : Distinguishable h s u)
    (hs : Unambiguous h s.users.keys) (hkeys : ∀ v, v ∈ s'.users.keys ↔ v = u ∨ v ∈ s.users.keys) :
    Unambiguous h s'.users.keys := by
  intro v hv w hw hne
  rcases (hkeys v).mp hv with rfl | hv
  · rcases (hkeys w).mp hw with rfl | hw
    · exact (hne rfl).elim
    · exact (hdist w hw (Ne.symm hne)).2
  · rcases (hkeys w).mp hw with rfl | hw
    · exact (hdist v hv hne).1
    · exact hs v hv w hw hne

theorem Exclusive.write (hs : Exclusive h s) (hdist : Distinguishable h s u)
    {kept written : List Outbound} (hkeys : ∀ v, v ∈ s'.users.keys ↔ v = u ∨ v ∈ s.users.keys)
    (hout : s'.outbounds = kept ++ written) (hkept : kept.Sublist s.outbounds)
    (hwritten : written.Pairwise (Shared h s'.users.keys))
    (hcross : ∀ a ∈ kept, ∀ b ∈ written, Shared h s'.users.keys a b) : Exclusive h s' := by
  refine ⟨hdist.unambiguous hs.unambiguous hkeys, ?_⟩
  rw [hout, List.pairwise_append]
  refine ⟨?_, hwritten, hcross⟩
  apply (hs.shared.sublist hkept).imp
  intro a b hab
  exact hab.mono (fun w hw => (hkeys w).mpr (Or.inr hw))

theorem Exclusive.bindOne (hs : Exclusive h s) (hdist : Distinguishable h s u)
    (hkeys : ∀ v, v ∈ s'.users.keys ↔ v = u ∨ v ∈ s.users.keys) {proxy : Proxy}
    (hnamed : Named proxy) (hserver : proxyServer proxy ≠ "")
    (havail : proxyIdentity h (proxyServer proxy) proxy.port proxy.username proxy.password ∉
      configuredProxyIdentities h s.outbounds u)
    (hout : s'.outbounds = s.outbounds.filter (·.tag ≠ outboundTag u) ++
      [socksOutbound (outboundTag u) (proxyServer proxy) proxy.port proxy.username
        proxy.password]) :
    Exclusive h s' := by
  refine hs.write hdist hkeys hout List.filter_sublist (List.pairwise_singleton _ _) ?_
  intro a ha b hb _ heq
  rw [List.mem_singleton.mp hb] at heq ⊢
  rw [outboundIdentity_socksOutbound hserver (strip_strip _) hnamed] at heq
  have hattr := attributed_of_available havail (List.mem_filter.mp ha).1 heq
  rw [tag_socksOutbound]
  exact ⟨u, (hkeys u).mpr (Or.inl rfl), hattr, isUserProxyOutboundTag_self h u, Or.inr rfl⟩

theorem normalizeProxies_ok {index : Nat} {batch : List Identity}
    (hok : normalizeProxies h outbounds u index batch proxies = .ok entries) :
    (∀ entry ∈ entries, (∃ proxy ∈ proxies, entry = upstream proxy) ∧ entry.server ≠ "" ∧
      entry.identity h ∉ configuredProxyIdentities h outbounds u ∧ entry.identity h ∉ batch) ∧
      entries.Pairwise (fun a b => a.identity h ≠ b.identity h) := by
  induction proxies generalizing index batch entries with
  | nil =>
    cases hok
    simp
  | cons proxy proxies ih =>
    obtain ⟨entry, hentry, hok⟩ := bind_eq_ok hok
    obtain ⟨rest, hrest, hok⟩ := bind_eq_ok hok
    cases hok
    obtain ⟨heq, hserver, havail, hbatch⟩ := normalizeProxy_ok hentry
    obtain ⟨hall, hpair⟩ := ih hrest
    refine ⟨?_, List.pairwise_cons.mpr ⟨?_, hpair⟩⟩
    · intro e he
      rcases List.mem_cons.mp he with rfl | he
      · exact ⟨⟨proxy, List.mem_cons_self, heq⟩, hserver, havail, hbatch⟩
      · obtain ⟨⟨p, hp, hep⟩, hs, ha, hb⟩ := hall e he
        exact ⟨⟨p, List.mem_cons_of_mem _ hp, hep⟩, hs, ha,
          fun hm => hb (List.mem_cons_of_mem _ hm)⟩
    · intro e he hsame
      apply (hall e he).2.2.2
      rw [← hsame]
      exact List.mem_cons_self

theorem memberOutbounds_identities {index : Nat}
    (hall : ∀ entry ∈ entries, entry.server ≠ "" ∧ strip entry.server = entry.server ∧
    (entry.username.getD "" = "" → entry.password.getD "" = "")) :
    (memberOutbounds u index entries).map (outboundIdentity h) =
    entries.map (fun entry => some (entry.identity h)) := by
  induction entries generalizing index with
  | nil => rfl
  | cons entry entries ih =>
    obtain ⟨hserver, hstrip, hnamed⟩ := hall entry List.mem_cons_self
    rw [memberOutbounds, List.map_cons, List.map_cons,
      outboundIdentity_socksOutbound hserver hstrip hnamed,
      ih (fun e he => hall e (List.mem_cons_of_mem _ he))]
    rfl

theorem outboundIdentity_aggregate (u : String) (balancing : Balancing) (tags : List String) :
    outboundIdentity h (aggregateOutbound u balancing tags) = none := by
  unfold aggregateOutbound
  split <;> rfl

theorem Exclusive.bindMany (hs : Exclusive h s) (hdist : Distinguishable h s u)
    (hkeys : ∀ v, v ∈ s'.users.keys ↔ v = u ∨ v ∈ s.users.keys) {balancing : Balancing}
    (hnamed : ∀ proxy ∈ proxies, Named proxy)
    (hok : normalizeProxies h s.outbounds u 0 [] proxies = .ok entries)
    (hout : s'.outbounds = balancedOutbounds u balancing entries s.outbounds) : Exclusive h s' := by
  obtain ⟨hall, hpair⟩ := normalizeProxies_ok hok
  have hidentities : (memberOutbounds u 0 entries).map (outboundIdentity h) =
      entries.map (fun entry => some (entry.identity h)) := by
    apply memberOutbounds_identities
    intro entry he
    obtain ⟨⟨proxy, hp, rfl⟩, hserver, _⟩ := hall entry he
    exact ⟨hserver, strip_strip _, hnamed proxy hp⟩
  have hmember : ∀ b ∈ memberOutbounds u 0 entries, ∃ entry ∈ entries,
      outboundIdentity h b = some (entry.identity h) := by
    intro b hb
    have hm := List.mem_map_of_mem (f := outboundIdentity h) hb
    rw [hidentities] at hm
    obtain ⟨entry, he, heq⟩ := List.mem_map.mp hm
    exact ⟨entry, he, heq.symm⟩
  have haggregate := outboundIdentity_aggregate (h := h) u balancing
    ((memberOutbounds u 0 entries).map (·.tag))
  rw [balancedOutbounds, List.append_assoc] at hout
  refine hs.write hdist hkeys hout List.filter_sublist ?_ ?_
  · rw [List.pairwise_append]
    refine ⟨?_, List.pairwise_singleton _ _, ?_⟩
    · have hdistinct : ((memberOutbounds u 0 entries).map (outboundIdentity h)).Pairwise
        (· ≠ ·) := by
        rw [hidentities, List.pairwise_map]
        exact hpair.imp (fun hne heq => hne (Option.some_inj.mp heq))
      exact (List.pairwise_map.mp hdistinct).imp (fun hne _ heq => (hne heq).elim)
    · intro a _ b hb
      rw [List.mem_singleton.mp hb]
      exact Shared.of_none haggregate
  · intro a ha b hb
    rcases List.mem_append.mp hb with hb | hb
    · intro _ heq
      obtain ⟨entry, he, hid⟩ := hmember b hb
      obtain ⟨ho, hnot⟩ := List.mem_filter.mp ha
      have hattr := attributed_of_available (hall entry he).2.2.1 ho (heq.trans hid)
      rw [attributed_isCleared hattr] at hnot
      cases hnot
    · rw [List.mem_singleton.mp hb]
      exact Shared.of_none haggregate

theorem Exclusive.remove (hs : Exclusive h s)
    (hkeys : ∀ v, v ∈ s'.users.keys ↔ v ≠ u ∧ v ∈ s.users.keys)
    (hout : s'.outbounds = s.outbounds.filter (·.tag ≠ outboundTag u)) : Exclusive h s' := by
  refine ⟨?_, ?_⟩
  · intro v hv w hw
    exact hs.unambiguous v ((hkeys v).mp hv).2 w ((hkeys w).mp hw).2
  rw [hout]
  apply (hs.shared.sublist List.filter_sublist).imp_of_mem
  intro a b ha hb hab hsome heq
  obtain ⟨w, hw, haw, hbw, hown⟩ := hab hsome heq
  have hwu : w ≠ u := by
    rintro rfl
    rcases hown with hown | hown
    · simp [hown] at ha
    · simp [hown] at hb
  exact ⟨w, (hkeys w).mpr ⟨hwu, hw⟩, haw, hbw, hown⟩

end NodeManager.ExitOwnership
