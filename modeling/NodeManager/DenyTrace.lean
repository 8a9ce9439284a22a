import NodeManager.AccountedOperations

namespace NodeManager.DenyTrace

open Singbox Identities Occurrences DenyRules DenyLedger DenyTransfer DenyAccounting Accounts
  BlockingOperations AccountedOperations

variable {s : Node} {u : String} {rule : Rule} {authUsers : List String}

theorem mem_managedEnforcementRules_iff {m : Metadata} (hnot : ∀ names, rule ≠ .reject names) :
    rule ∈ managedEnforcementRules m ↔ rule ∈ sourceRules m := by
  unfold managedEnforcementRules sourceRules
  cases hl : m.enforcementAuthUsers with
  | none => exact Iff.rfl
  | some authUsers =>
    cases authUsers with
    | nil => exact Iff.rfl
    | cons n ns =>
      simp only [List.mem_append]
      refine ⟨?_, Or.inr⟩
      rintro (hr | hr)
      · split_ifs at hr
        · exact (hnot _ (List.mem_singleton.mp hr)).elim
        · cases hr
      · exact hr

theorem count_removeManagedEnforcementRules (rules : List Rule) (m : Metadata)
    (hnot : ∀ names, rule ≠ .reject names) :
    (removeManagedEnforcementRules rules m).count rule = if rule ∈ sourceRules m then 0
    else rules.count rule := by
  have hspared : (if m.expirationBlocked then (managedExpirationRules m).head? else none) ≠
      some rule := by
    split_ifs
    · rw [managedExpirationRules_eq]
      intro hhead
      obtain ⟨names, _, he⟩ := List.mem_map.mp (List.mem_of_head? hhead)
      exact hnot names he.symm
    · exact fun he => by cases he
  rw [removeManagedEnforcementRules, count_removeAllBut, if_neg hspared]
  simp only [mem_managedEnforcementRules_iff hnot]

theorem count_lifted_eq_zero {rules : List Rule} {m : Metadata}
    (hnot : ∀ names, rule ≠ .reject names) (hle : rules.count rule ≤ (sourceRules m).count rule) :
    (removeManagedEnforcementRules rules m).count rule = 0 := by
  rw [count_removeManagedEnforcementRules rules m hnot]
  split_ifs with hmem
  · rfl
  · rw [List.count_eq_zero_of_not_mem hmem] at hle
    exact Nat.le_zero.mp hle

theorem keeps_setTraffic (rules : List Rule) (m : Metadata) (position : Nat)
    (hne : authUsers ≠ []) :
    Keeps recordedRules rules m (insertAt position (.reject authUsers)
      (removeManagedEnforcementRules rules m)) { m with
        enforcementAuthUsers := some authUsers
        enforcementTrafficBlocked := true
        enforcementBlockedSourceCidrs := none } := by
  apply keeps_recordedRules (bounded_setTraffic rules m position hne).plain
  intro rule hnot hle
  rw [count_insertAt, if_neg (hnot authUsers).symm, count_lifted_eq_zero hnot hle]
  exact Nat.zero_le _

theorem keeps_setSources (rules : List Rule) (m : Metadata) (position : Nat) {cidrs : List String}
    (hne : authUsers ≠ []) (hcidrs : cidrs ≠ []) :
    Keeps recordedRules rules m
      (insertAt position (.rejectSources authUsers cidrs) (removeManagedEnforcementRules rules m))
      { m with
        enforcementAuthUsers := some authUsers
        enforcementTrafficBlocked := false
        enforcementBlockedSourceCidrs := some cidrs } := by
  have hsource : ∀ names, Rule.rejectSources authUsers cidrs ≠ .reject names := by
    intro names he
    cases congrArg Rule.sourceIpCidr he
  obtain ⟨a, as, rfl⟩ := List.exists_cons_of_ne_nil hne
  obtain ⟨c, cs, rfl⟩ := List.exists_cons_of_ne_nil hcidrs
  apply keeps_recordedRules
  · intro names hle
    rw [count_insertAt, if_neg (hsource names), Nat.add_zero]
    exact (bounded_liftTraffic rules m).plain names hle
  intro rule hnot hle
  rw [count_insertAt, count_lifted_eq_zero hnot hle, Nat.zero_add]
  have hrules : sourceRules { m with
      enforcementAuthUsers := some (a :: as)
      enforcementTrafficBlocked := false
      enforcementBlockedSourceCidrs :=
        some (c :: cs) } = [.rejectSources (a :: as) (c :: cs)] := rfl
  rw [hrules, List.count_singleton]
  simp

theorem keeps_liftTraffic (rules : List Rule) (m : Metadata) :
    Keeps recordedRules rules m (removeManagedEnforcementRules rules m) (liftTraffic m) := by
  apply keeps_recordedRules (bounded_liftTraffic rules m).plain
  intro rule hnot hle
  rw [count_lifted_eq_zero hnot hle]
  exact Nat.zero_le _

theorem AccountedBy.syncUserEnforcement (hs : AccountedBy recordedRules u s) {h : Host}
    {persist : Bool} {desired : Enforcement} :
    AccountedBy recordedRules u (syncUserEnforcement h persist s u desired) := by
  obtain he | ⟨m, hm, _, _, he⟩ := syncUserEnforcement_cases h persist s u desired
  · rw [he]
    exact hs
  have hrow := registryUser_of_get? hm
  have hne := (tidy_enforcementNames s u).1
  rw [he, enforce]
  split_ifs with ht hc
  · apply AccountedBy.store hs (by rw [hrow])
    rw [hrow]
    exact keeps_setTraffic s.rules m _ hne
  · apply AccountedBy.store hs (by rw [hrow])
    rw [hrow]
    exact keeps_setSources s.rules m _ hne hc
  · apply AccountedBy.store hs (by rw [hrow])
    rw [hrow]
    exact keeps_liftTraffic s.rules m

theorem not_rejected_of_deleted (hs : AccountedBy recordedRules u s)
    (haccess : (registryUser s.users u).accessBlocked = false) :
    ∀ rule ∈ (deleteUser u s).rules, rejects (userAuthNames s.users u) rule = false := by
  intro rule hr
  by_contra hrejects
  rw [Bool.not_eq_false] at hrejects
  rw [rules_deleteUser, List.mem_filter, decide_eq_true_eq] at hr
  obtain ⟨hmem, henforce, _⟩ := hr
  have hcount : s.rules.count rule ≤ (recordedRules (registryUser s.users u)).count rule := by
    rw [← List.count_filter hrejects]
    exact hs.rejects.count_le rule
  have htraffic : ((trafficList (registryUser s.users u)).toList.map Rule.reject).count
      rule = 0 := by
    rw [List.count_eq_zero]
    intro hm
    obtain ⟨names, hn, rfl⟩ := List.mem_map.mp hm
    exact henforce (reject_mem_managedEnforcementRules.mpr (Option.mem_toList.mp hn))
  have hsource : (sourceRules (registryUser s.users u)).count rule = 0 := by
    rw [List.count_eq_zero]
    intro hm
    exact henforce ((mem_managedEnforcementRules_iff (not_plain_of_mem_sourceRules hm)).mpr hm)
  have haccessList : accessList (registryUser s.users u) = none := by
    rw [accessList, if_neg (by rw [haccess]; exact Bool.false_ne_true)]
  have hexpiration : ((expirationList (registryUser s.users u)).toList.map Rule.reject).count rule ≤
      (managedExpirationRules (registryUser s.users u)).count rule := by
    rw [managedExpirationRules_eq, expirationList]
    split_ifs
    · exact le_refl _
    · exact Nat.zero_le _
  rw [recordedRules, ownedRules, haccessList, Option.toList_none, List.nil_append, List.map_append,
    List.count_append, List.count_append, htraffic, hsource] at hcount
  have hpos : 0 < (s.rules.diff (managedExpirationRules (registryUser s.users u))).count rule :=
    List.count_pos_iff.mpr hmem
  rw [List.count_diff] at hpos
  omega

end NodeManager.DenyTrace
