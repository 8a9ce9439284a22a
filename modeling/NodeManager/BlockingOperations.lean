import NodeManager.Operations
import NodeManager.DenyAccounting
import NodeManager.Runs

namespace NodeManager.BlockingOperations

open Dictionary Singbox Identities Outcomes DenyRules DenyLedger DenyAccounting Operations Runs

def Redated (m m' : Metadata) : Prop :=
  m' = { m with
    expiresAt := m'.expiresAt
    expirationUpdatedAt := m'.expirationUpdatedAt
    trafficLimitBytes := m'.trafficLimitBytes
    maxSourceIps := m'.maxSourceIps }

variable {m m' : Metadata}

theorem Redated.owners_eq (hr : Redated m m') : owners m' = owners m := by
  rw [hr]
  rfl

theorem Redated.socksUsername_eq (hr : Redated m m') : m'.socksUsername = m.socksUsername := by
  rw [hr]

theorem Redated.sourceRules_eq (hr : Redated m m') : sourceRules m' = sourceRules m := by
  rw [hr]
  rfl

/-- A property that each of these writes keeps for the users in `On` is kept by every blocking
operation on them. `May` says which rows a traffic block may be lifted from. -/
structure BlockingInvariant (h : Host) (On : String → Prop) (May : Metadata → Prop)
    (Inv : Node → Prop) : Prop where
  allow : ∀ s u, On u → Inv s → Inv (allowAccess u s)
  deny : ∀ s u, On u → Inv s → Inv (denyAccess u s)
  expire : ∀ s u, On u → Inv s → Inv (addExpirationRule u s)
  redate : ∀ s u m, On u → Redated (registryUser s.users u) m → Inv s → Inv (store s u s.rules m)
  renew : ∀ s u m, On u → Redated (registryUser s.users u) m → Inv s →
    Inv (store s u (removeExpirationRule s.rules m).1 (removeExpirationRule s.rules m).2)
  enforce : ∀ s u desired m, On u → s.users.get? u = some m →
    (desired.trafficBlocked = false → May m) → Inv s →
    Inv (syncUserEnforcement h false s u desired)

theorem get?_store (s : Node) (u : String) (rules : List Rule) (m : Metadata) (v : String) :
    (store s u rules m).users.get? v = if v = u then (s.users.get? v).map (fun _ => m)
    else s.users.get? v :=
  Dict.get?_modify s.users u (fun _ => m) v

variable {s : Node} {u : String}

theorem store_of_not_mem (hu : u ∉ s.users.keys) (rules : List Rule) (m : Metadata) :
    store s u rules m = { s with rules := rules } := by
  rw [store, Dict.modify_of_not_mem hu]

variable {users : Users}

theorem registryUser_of_get? (hm : users.get? u = some m) : registryUser users u = m := by
  rw [registryUser, hm, Option.getD_some]

theorem registryUser_of_not_mem (hu : u ∉ users.keys) : registryUser users u = {} := by
  rw [registryUser, Dict.get?_eq_none.mpr hu, Option.getD_none]

theorem denyAccess_of_not_mem (hu : u ∉ s.users.keys) :
    denyAccess u s = { s with rules := .reject (blockNames s u) :: s.rules } := by
  unfold denyAccess
  rw [registryUser_of_not_mem hu]
  exact store_of_not_mem hu _ _

theorem addExpirationRule_of_not_mem (hu : u ∉ s.users.keys) :
    addExpirationRule u s = { s with rules := .reject (blockNames s u) :: s.rules } := by
  unfold addExpirationRule
  rw [registryUser_of_not_mem hu]
  exact store_of_not_mem hu _ _

theorem enforce_get?_of_ne {v : String} (hv : v ≠ u) (m : Metadata) (traffic : Bool)
    (cidrs : List String) (s : Node) :
    (enforce u m traffic cidrs s).users.get? v = s.users.get? v := by
  unfold enforce
  split
  · exact (get?_store s u _ _ v).trans (if_neg hv)
  split
  · exact (get?_store s u _ _ v).trans (if_neg hv)
  · exact (get?_store s u _ _ v).trans (if_neg hv)

theorem syncUserEnforcement_cases (h : Host) (persist : Bool) (s : Node) (u : String)
    (desired : Enforcement) :
    syncUserEnforcement h persist s u desired = s ∨
      ∃ m, s.users.get? u = some m ∧
        ¬ (hasEnforcement m desired.trafficBlocked (sourceCidrs h persist desired) = false ∧
          normalized (m.enforcementAuthUsers.getD []) = []) ∧
        enforcementCurrent s u m desired.trafficBlocked (sourceCidrs h persist desired) = false ∧
        syncUserEnforcement h persist s u desired =
          enforce u m desired.trafficBlocked (sourceCidrs h persist desired) s := by
  cases hm : s.users.get? u with
  | none => exact Or.inl (by simp only [syncUserEnforcement, hm])
  | some m =>
    simp only [syncUserEnforcement, hm]
    split_ifs with h1 h2 h3
    · exact Or.inl rfl
    · exact Or.inl rfl
    · exact Or.inl rfl
    · exact Or.inr ⟨m, rfl, h1, by simpa using h3, rfl⟩

theorem syncUserEnforcement_get?_of_ne {v : String} (hv : v ≠ u) (h : Host)
    (persist : Bool) (s : Node) (desired : Enforcement) :
    (syncUserEnforcement h persist s u desired).users.get? v = s.users.get? v := by
  obtain he | ⟨m, _, _, _, he⟩ := syncUserEnforcement_cases h persist s u desired
  · rw [he]
  · rw [he, enforce_get?_of_ne hv]

theorem expired_addExpirationRule (u : String) (s : Node) (now : Int) (v : String) :
    expired (addExpirationRule u s).users now v = expired s.users now v := by
  unfold addExpirationRule
  dsimp only
  split_ifs
  · rfl
  unfold expired registryUser
  rw [get?_store]
  by_cases hv : v = u
  · subst hv
    cases hm : s.users.get? v with
    | none => simp
    | some m => simp [removeExpirationRule]
  · rw [if_neg hv]

variable {h : Host} {On : String → Prop} {May : Metadata → Prop} {Inv : Node → Prop}

namespace BlockingInvariant

variable {s' : Node}

section

variable (hi : BlockingInvariant h On May Inv)
include hi

theorem setUserAccess {enabled : Bool} (hu : On u) (hs : Inv s)
    (hok : setUserAccess u enabled s = .ok s') : Inv s' := by
  unfold DenyRules.setUserAccess at hok
  split at hok
  · cases hok
  cases enabled with
  | true => cases hok; exact hi.allow s u hu hs
  | false => cases hok; exact hi.deny s u hu hs

theorem processUserExpirations {now : Int}
    (hu : ∀ v ∈ s.users.keys.filter (expired s.users now), On v) (hs : Inv s) :
    Inv (processUserExpirations h now s) := by
  unfold DenyRules.processUserExpirations
  split
  · -- the set of expired users does not change while the rules are added
    refine (@foldl_invariant Node String
      (fun t => Inv t ∧ ∀ v, expired t.users now v = expired s.users now v) _ _ s
      ⟨hs, fun _ => rfl⟩ ?_).1
    rintro t v hv ⟨ht, he⟩
    split
    next hx =>
      have hon : On v := hu v (List.mem_filter.mpr ⟨hv, (he v).symm.trans hx⟩)
      exact ⟨hi.expire t v hon ht, fun w => (expired_addExpirationRule v t now w).trans (he w)⟩
    next => exact ⟨ht, he⟩
  · exact hs

theorem extend (renewal : Renewal) (hu : On u) (hs : Inv s) : Inv (extend u renewal s) :=
  hi.renew s u _ hu rfl hs

end

variable {renewal : Renewal}

section

variable (hi : BlockingInvariant h On May Inv)
include hi

theorem renewOne (hu : On u) (hs : Inv s) (hok : renewOne renewal u s = .ok s') : Inv s' := by
  unfold DenyRules.renewOne at hok
  dsimp only at hok
  split_ifs at hok
  · cases hok; exact hs
  · cases hok; exact hi.extend renewal hu hs

theorem renewEach {ids : List String} (hu : ∀ v ∈ ids, On v) (hs : Inv s)
    (hok : renewEach renewal ids s = .ok s') : Inv s' := by
  induction ids generalizing s with
  | nil => cases hok; exact hs
  | cons u ids ih =>
    obtain ⟨t, hone, hrest⟩ := bind_eq_ok hok
    have ht : Inv t := hi.renewOne (hu u List.mem_cons_self) hs hone
    exact ih (fun v hv => hu v (List.mem_cons_of_mem u hv)) ht hrest

theorem applySync (now expiresAt : Int) (hu : On u) (hs : Inv s) :
    Inv (applySync h now u expiresAt s) := by
  unfold DenyRules.applySync
  split_ifs
  · exact hi.renew s u _ hu rfl hs
  · exact hi.expire _ u hu (hi.redate s u _ hu rfl hs)
  · exact hi.redate s u _ hu rfl hs

theorem syncUserExpirations {items : List ExpirationSync} {now : Int}
    (hu : ∀ item ∈ items, On item.userId) (hs : Inv s)
    (hok : syncUserExpirations h items now s = .ok s') : Inv s' := by
  unfold DenyRules.syncUserExpirations at hok
  split at hok
  · cases hok
    apply foldl_invariant hs
    intro t item hitem ht
    apply orUnchanged_invariant ht
    intro t' hone
    obtain ⟨expiresAt, _, heq⟩ := bind_eq_ok hone
    cases heq
    exact hi.applySync now expiresAt (hu item hitem) ht
  · cases hok

theorem syncUserEnforcements {enforcements : Dict String Enforcement}
    (hu : ∀ e ∈ enforcements.entries, On e.1)
    (hmay : ∀ e ∈ enforcements.entries, e.2.trafficBlocked = false → May (registryUser s.users e.1))
    (hs : Inv s) :
    Inv (syncUserEnforcements h false enforcements s) := by
  obtain ⟨es, hn⟩ := enforcements
  induction es generalizing s with
  | nil => exact hs
  | cons e es ih =>
    rw [List.map_cons, List.nodup_cons] at hn
    have hstep : Inv (syncUserEnforcement h false s e.1 e.2) := by
      cases hm : s.users.get? e.1 with
      | none => simpa only [syncUserEnforcement, hm] using hs
      | some m =>
        apply hi.enforce s e.1 e.2 m (hu e List.mem_cons_self) hm _ hs
        intro ht
        simpa only [registryUser_of_get? hm] using hmay e List.mem_cons_self ht
    apply ih hstep hn.2 (fun e' he' => hu e' (List.mem_cons_of_mem e he'))
    intro e' he' ht
    have hne : e'.1 ≠ e.1 := fun heq => hn.1 (heq ▸ List.mem_map_of_mem he')
    have hrow := syncUserEnforcement_get?_of_ne hne h false s e.2
    have := hmay e' (List.mem_cons_of_mem e he') ht
    simpa only [registryUser, hrow] using this

theorem step {op : Operation} (hb : isBlocking op = true) (hu : ∀ v ∈ subjects s op, On v)
    (hmay : ∀ enforcements persist, op = .syncUserEnforcements enforcements persist →
      ∀ e ∈ enforcements.entries,
    e.2.trafficBlocked = false → May (registryUser s.users e.1))
    (hs : Inv s) : Inv (mutateConfig h op s) := by
  apply orUnchanged_invariant hs
  intro s' hp
  cases op with
  | setUserAccess u enabled => exact hi.setUserAccess (hu u (by simp [subjects])) hs hp
  | processUserExpirations now => cases hp; exact hi.processUserExpirations hu hs
  | renewUsers ids renewal =>
    simp only [perform, renewUsers] at hp
    split_ifs at hp
    exact hi.renewEach hu hs hp
  | updateUserExpiration u expiresAt now =>
    simp only [perform, updateUserExpiration] at hp
    split_ifs at hp
    cases hp
    exact hi.extend _ (hu u (by simp [subjects])) hs
  | restoreUser u expiresAt now =>
    simp only [perform, restoreUser] at hp
    split_ifs at hp
    cases hp
    exact hi.extend _ (hu u (by simp [subjects])) hs
  | syncUserExpirations items now =>
    exact hi.syncUserExpirations (fun item hitem => hu _ (List.mem_map_of_mem hitem)) hs hp
  | syncUserEnforcements enforcements persist =>
    have hpersist : persist = false := by simpa [isBlocking] using hb
    subst hpersist
    cases hp
    exact hi.syncUserEnforcements (fun e he => hu e.1 (List.mem_map_of_mem he))
      (hmay enforcements false rfl) hs
  | _ => simp [isBlocking] at hb

end

end BlockingInvariant

end NodeManager.BlockingOperations
