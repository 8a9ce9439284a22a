import NodeManager.DenyLedger

namespace NodeManager.DenyTransfer

open Singbox DenyRules DenyLedger

structure Transfer (rules : List Rule) (m : Metadata) (rules' : List Rule) (m' : Metadata)
    (removed added : List String → Nat) : Prop where
  removed_le : ∀ names, removed names ≤ owners m names
  owners_eq : ∀ names, owners m' names = owners m names - removed names + added names
  copies_eq : ∀ p, Passes p → ∀ names,
    copies p rules' names = copies p rules names - removed names + added names

/-- A change that takes no rule from another row, and none from the blocks the row keeps. -/
structure Covers (rules : List Rule) (m : Metadata) (rules' : List Rule)
    (m' : Metadata) : Prop where
  others : ∀ p, Passes p → (∀ names cidrs, p (.rejectSources names cidrs) = true) →
    ∀ names, owners m names = 0 → copies p rules names ≤ copies p rules' names
  own : ∀ p, Passes p → (∀ names cidrs, p (.rejectSources names cidrs) = true) →
    (∀ names, owners m names ≤ copies p rules names) →
    ∀ names, owners m' names ≤ copies p rules' names

section

variable {rules rules' : List Rule}

theorem Covers.congr {m m₁ m' m₁' : Metadata} (h : Covers rules m rules' m')
    (ho : owners m₁ = owners m) (ho' : owners m₁' = owners m') : Covers rules m₁ rules' m₁' := by
  constructor
  · intro p hp hs names hz
    rw [ho] at hz
    exact h.others p hp hs names hz
  · intro p hp hs hc
    rw [ho] at hc
    rw [ho']
    exact h.own p hp hs hc

theorem Transfer.covers {m m' : Metadata} {removed added : List String → Nat}
    (h : Transfer rules m rules' m' removed added) : Covers rules m rules' m' := by
  constructor
  · intro p hp _ names hz
    have hle := h.removed_le names
    rw [h.copies_eq p hp names]
    omega
  · intro p hp _ hc names
    have hn := hc names
    rw [h.copies_eq p hp names, h.owners_eq names]
    omega

theorem transfer_refl (rules : List Rule) (m : Metadata) :
    Transfer rules m rules m (fun _ => 0) (fun _ => 0) where
  removed_le _ := Nat.zero_le _
  owners_eq _ := rfl
  copies_eq _ _ _ := rfl

theorem Transfer.deny {m m₁ m' : Metadata} {authUsers : List String} {removed : List String → Nat}
    (h : Transfer rules m rules' m₁ removed (fun _ => 0))
    (ho : ∀ names, owners m' names = owners m₁ names + if authUsers = names then 1 else 0) :
    Transfer rules m (.reject authUsers :: rules') m' removed
    (fun names => if authUsers = names then 1 else 0) where
  removed_le := h.removed_le
  owners_eq names := by rw [ho, h.owners_eq, Nat.add_zero]
  copies_eq p hp names := by rw [copies_cons hp, h.copies_eq p hp, Nat.add_zero]

end

section Blocks

variable (m : Metadata) (rules : List Rule) {authUsers : List String}

theorem transfer_removeAccessRule :
    Transfer rules m (removeAccessRule rules m).1 (removeAccessRule rules m).2
    (holds (accessList m)) (fun _ => 0) where
  removed_le names := by
    unfold owners
    omega
  owners_eq names := by
    have hrest : owners (removeAccessRule rules m).2 names =
      holds none names + holds (expirationList m) names + holds (trafficList m) names := rfl
    rw [hrest, holds_none, owners]
    omega
  copies_eq p hp names := by rw [removeAccessRule_fst, copies_eraseRule hp, Nat.add_zero]

theorem transfer_denyAccess (ht : Tidy authUsers) :
    Transfer rules m (.reject authUsers :: (removeAccessRule rules m).1)
      { (removeAccessRule rules m).2 with
        accessBlockedAuthUsers := some authUsers, accessBlocked := true }
      (holds (accessList m)) (fun names => if authUsers = names then 1 else 0) := by
  refine (transfer_removeAccessRule m rules).deny (fun names => ?_)
  change holds ((nonEmpty (some authUsers)).map normalized) names + holds (expirationList m) names +
    holds (trafficList m) names = holds none names + holds (expirationList m) names +
    holds (trafficList m) names + _
  rw [nonEmpty_some ht.1, Option.map_some, ht.2, holds_some, holds_none]
  omega

theorem transfer_removeExpirationRule (hl : expirationTarget m = expirationList m) :
    Transfer rules m (removeExpirationRule rules m).1 (removeExpirationRule rules m).2
      (holds (expirationList m)) (fun _ => 0) where
  removed_le names := by
    unfold owners
    omega
  owners_eq names := by
    have hrest : owners (removeExpirationRule rules m).2 names =
      holds (accessList m) names + holds none names + holds (trafficList m) names := rfl
    rw [hrest, holds_none, owners]
    omega
  copies_eq p hp names := by rw [removeExpirationRule_fst, copies_eraseRule hp, hl, Nat.add_zero]

theorem transfer_addExpirationRule (hl : expirationTarget m = expirationList m)
    (ht : Tidy authUsers) :
    Transfer rules m (.reject authUsers :: (removeExpirationRule rules m).1)
      { (removeExpirationRule rules m).2 with
        expirationAuthUsers := some authUsers, expirationBlocked := true }
      (holds (expirationList m)) (fun names => if authUsers = names then 1 else 0) := by
  refine (transfer_removeExpirationRule m rules hl).deny (fun names => ?_)
  change holds (accessList m) names + holds ((nonEmpty (some authUsers)).map normalized) names +
    holds (trafficList m) names = holds (accessList m) names + holds none names +
    holds (trafficList m) names + _
  rw [nonEmpty_some ht.1, Option.map_some, ht.2, holds_some, holds_none]
  omega

theorem transfer_addTraffic (hf : m.enforcementTrafficBlocked = false) (hne : authUsers ≠ [])
    (cidrs : Option (List String)) :
    Transfer rules m (.reject authUsers :: rules)
      { m with
        enforcementAuthUsers := some authUsers
        enforcementTrafficBlocked := true
        enforcementBlockedSourceCidrs := cidrs }
      (fun _ => 0) (fun names => if authUsers = names then 1 else 0) := by
  refine (transfer_refl rules m).deny (fun names => ?_)
  have hold : trafficList m = none := by simp [trafficList, hf]
  change holds (accessList m) names + holds (expirationList m) names +
    holds (nonEmpty (some authUsers)) names = _
  rw [nonEmpty_some hne, holds_some, owners, hold, holds_none, Nat.add_zero]

def liftTraffic (m : Metadata) : Metadata :=
  { m with
    enforcementAuthUsers := none, enforcementTrafficBlocked := false,
    enforcementBlockedSourceCidrs := none }

theorem owners_liftTraffic (names : List String) :
    owners (liftTraffic m) names =
    holds (accessList m) names + holds (expirationList m) names := rfl

theorem covers_liftTraffic (hshare : ∀ names, trafficList m = some names →
    accessList m ≠ some names) :
    Covers rules m (removeManagedEnforcementRules rules m) (liftTraffic m) := by
  constructor
  · intro p hp hs names hz
    have ht : holds (trafficList m) names = 0 := by
      unfold owners at hz
      omega
    rw [copies_removeManagedEnforcementRules hp hs, if_pos ht]
  · intro p hp hs hc names
    have hn := hc names
    rw [owners_liftTraffic, copies_removeManagedEnforcementRules hp hs]
    unfold owners at hn
    by_cases ht : trafficList m = some names
    · have ha : holds (accessList m) names = 0 := if_neg (hshare names ht)
      have hone : holds (trafficList m) names = 1 := if_pos ht
      rw [if_neg (by omega)]
      omega
    · have hzero : holds (trafficList m) names = 0 := if_neg ht
      rw [if_pos hzero]
      omega

end Blocks

end NodeManager.DenyTransfer
