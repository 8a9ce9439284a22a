import NodeManager.DenyTransfer

namespace NodeManager.DenyAccounting

open Singbox Identities Occurrences DenyRules DenyLedger DenyTransfer

structure Bounded (rules : List Rule) (m : Metadata) (rules' : List Rule)
    (m' : Metadata) : Prop where
  plain : ∀ names, rules.count (.reject names) ≤ owners m names →
    rules'.count (.reject names) ≤ owners m' names
  other : ∀ rule, (∀ names, rule ≠ .reject names) → rules'.count rule ≤ rules.count rule

theorem copies_all (rules : List Rule) (names : List String) :
    copies (fun _ => true) rules names = rules.count (.reject names) := by
  have h : rules.takeWhile (fun _ => true) = rules := by simp
  rw [copies, h]

theorem count_eraseRule_le (list : Option (List String)) (rules : List Rule) (rule : Rule) :
    (eraseRule list rules).count rule ≤ rules.count rule := by
  cases list with
  | none => exact le_refl _
  | some names => exact List.erase_sublist.count_le rule

variable {rule : Rule}

theorem count_cons_of_not_plain (h : ∀ names, rule ≠ .reject names) (names : List String)
    (rules : List Rule) :
    (Rule.reject names :: rules).count rule = rules.count rule :=
  List.count_cons_of_ne (h names).symm

variable {rules rules' : List Rule} {m m' : Metadata}

theorem bounded_of_transfer {removed added : List String → Nat}
    (h : Transfer rules m rules' m' removed added)
    (hother : ∀ rule, (∀ names, rule ≠ .reject names) → rules'.count rule ≤ rules.count rule) :
    Bounded rules m rules' m' := by
  refine ⟨?_, hother⟩
  intro names hn
  have hc := h.copies_eq (fun _ => true) (fun _ => rfl) names
  rw [copies_all, copies_all] at hc
  rw [hc, h.owners_eq names]
  omega

theorem Bounded.congr {m₁ m₁' : Metadata} (h : Bounded rules m rules' m')
    (ho : owners m₁ = owners m) (ho' : owners m₁' = owners m') : Bounded rules m₁ rules' m₁' := by
  refine ⟨?_, h.other⟩
  intro names hn
  rw [ho] at hn
  rw [ho']
  exact h.plain names hn

variable (rules)

variable (m)

theorem bounded_refl : Bounded rules m rules m :=
  ⟨fun _ hn => hn, fun _ _ => le_refl _⟩

theorem bounded_removeAccessRule :
    Bounded rules m (removeAccessRule rules m).1 (removeAccessRule rules m).2 := by
  apply bounded_of_transfer (transfer_removeAccessRule m rules)
  intro rule _
  rw [removeAccessRule_fst]
  exact count_eraseRule_le _ rules rule

variable {authUsers : List String}

theorem bounded_denyAccess (ht : Tidy authUsers) :
    Bounded rules m (.reject authUsers :: (removeAccessRule rules m).1)
      { (removeAccessRule rules m).2 with
        accessBlockedAuthUsers := some authUsers, accessBlocked := true } := by
  apply bounded_of_transfer (transfer_denyAccess m rules ht)
  intro rule hr
  rw [count_cons_of_not_plain hr, removeAccessRule_fst]
  exact count_eraseRule_le _ rules rule

theorem holds_expirationList_le (names : List String) :
    holds (expirationList m) names ≤ holds (expirationTarget m) names := by
  unfold expirationList
  split
  · exact le_refl _
  · exact Nat.zero_le _

theorem bounded_removeExpirationRule :
    Bounded rules m (removeExpirationRule rules m).1 (removeExpirationRule rules m).2 := by
  refine ⟨?_, ?_⟩
  · intro names hn
    have hc := @copies_eraseRule (fun _ => true) (fun _ => rfl) (expirationTarget m) rules names
    have hle := holds_expirationList_le m names
    have hrest : owners (removeExpirationRule rules m).2 names =
      holds (accessList m) names + holds none names + holds (trafficList m) names := rfl
    rw [copies_all, copies_all] at hc
    rw [removeExpirationRule_fst, hc, hrest, holds_none]
    unfold owners at hn
    omega
  · intro rule _
    rw [removeExpirationRule_fst]
    exact count_eraseRule_le _ rules rule

theorem bounded_addExpirationRule (ht : Tidy authUsers) :
    Bounded rules m (.reject authUsers :: (removeExpirationRule rules m).1)
      { (removeExpirationRule rules m).2 with
        expirationAuthUsers := some authUsers, expirationBlocked := true } := by
  have hremove := bounded_removeExpirationRule rules m
  have hadd := transfer_addExpirationRule (removeExpirationRule rules m).2
    (removeExpirationRule rules m).1 rfl ht
  refine ⟨?_, ?_⟩
  · intro names hn
    have hadded := hadd.copies_eq (fun _ => true) (fun _ => rfl) names
    have hown := hadd.owners_eq names
    have hle := hremove.plain names hn
    rw [copies_all, copies_all] at hadded
    have hzero : holds (expirationList (removeExpirationRule rules m).2) names = 0 := rfl
    have hsame : (removeExpirationRule (removeExpirationRule rules m).1
      (removeExpirationRule rules m).2).1 =
      (removeExpirationRule rules m).1 := rfl
    have hrow : (removeExpirationRule (removeExpirationRule rules m).1
      (removeExpirationRule rules m).2).2 =
      (removeExpirationRule rules m).2 := rfl
    rw [hzero, hsame] at hadded
    rw [hzero, hrow] at hown
    omega
  · intro rule hr
    rw [count_cons_of_not_plain hr]
    exact hremove.other rule hr

theorem bounded_liftTraffic : Bounded rules m (removeManagedEnforcementRules rules m)
    (liftTraffic m) := by
  refine ⟨?_, ?_⟩
  · intro names hn
    have hc := @copies_removeManagedEnforcementRules (fun _ => true) (fun _ => rfl) (fun _ _ => rfl)
      m rules names
    rw [copies_all, copies_all] at hc
    rw [hc, owners_liftTraffic]
    unfold owners at hn
    split
    · omega
    · omega
  · intro rule _
    exact (removeAllBut_sublist _ _ rules).count_le rule

theorem bounded_setTraffic (position : Nat) (hne : authUsers ≠ []) :
    Bounded rules m (insertAt position (.reject authUsers) (removeManagedEnforcementRules rules m))
      { m with
        enforcementAuthUsers := some authUsers
        enforcementTrafficBlocked := true
        enforcementBlockedSourceCidrs := none } := by
  have hlift := bounded_liftTraffic rules m
  have hadd := transfer_addTraffic (liftTraffic m) (removeManagedEnforcementRules rules m)
    rfl hne none
  refine ⟨?_, ?_⟩
  · intro names hn
    have hown := hadd.owners_eq names
    have hle := hlift.plain names hn
    have hcount : (insertAt position (.reject authUsers)
        (removeManagedEnforcementRules rules m)).count (.reject names) =
        (removeManagedEnforcementRules rules m).count (.reject names) + if authUsers = names then 1
        else 0 := by
      rw [count_insertAt]
      simp only [reject_eq_iff]
    rw [hcount]
    refine (Nat.add_le_add_right hle _).trans ?_
    exact hown.ge
  · intro rule hr
    rw [count_insertAt, if_neg (hr authUsers).symm]
    exact hlift.other rule hr

variable {rules}

def rejects (names : List String) (rule : Rule) : Bool :=
  decide (rule.action = .reject) && rule.touches names

def rejectsNaming (names : List String) (rules : List Rule) : List Rule :=
  rules.filter (rejects names)

def ownedRules (m : Metadata) : List Rule :=
  ((accessList m).toList ++ (expirationList m).toList ++ (trafficList m).toList).map .reject

def sourceRules (m : Metadata) : List Rule :=
  match m.enforcementAuthUsers with
  | none | some [] => []
  | some authUsers => managedSourceRules authUsers m.enforcementBlockedSourceCidrs

def recordedRules (m : Metadata) : List Rule := ownedRules m ++ sourceRules m

/-- The user is registered, and every reject rule that names it is accounted for by its row. -/
structure AccountedBy (owned : Metadata → List Rule) (u : String) (s : Node) : Prop where
  registered : u ∈ s.users.keys
  rejects : (rejectsNaming (userAuthNames s.users u) s.rules).Subperm
    (owned (registryUser s.users u))

def Keeps (owned : Metadata → List Rule) (rules : List Rule) (m : Metadata) (rules' : List Rule)
    (m' : Metadata) : Prop :=
  ∀ rule, rules.count rule ≤ (owned m).count rule → rules'.count rule ≤ (owned m').count rule

theorem count_toList_map_reject (list : Option (List String)) (names : List String) :
    (list.toList.map Rule.reject).count (.reject names) = holds list names := by
  cases list with
  | none => rfl
  | some held =>
    rw [Option.toList_some, List.map_singleton, holds_some]
    by_cases h : held = names
    · subst h
      simp
    · have hne : Rule.reject held ≠ Rule.reject names := fun he => h (Rule.reject_injective he)
      simp [h, hne]

theorem count_ownedRules (names : List String) :
    (ownedRules m).count (.reject names) = owners m names := by
  simp only [ownedRules, List.map_append, List.count_append, count_toList_map_reject, owners]

variable {m}

theorem count_ownedRules_of_not_plain (hr : ∀ names, rule ≠ .reject names) (m : Metadata) :
    (ownedRules m).count rule = 0 := by
  rw [List.count_eq_zero]
  intro hmem
  obtain ⟨names, _, rfl⟩ := List.mem_map.mp hmem
  exact hr names rfl

theorem Keeps.subperm {owned : Metadata → List Rule} (hk : Keeps owned rules m rules' m')
    {names : List String} (hs : (rejectsNaming names rules).Subperm (owned m)) :
    (rejectsNaming names rules').Subperm (owned m') := by
  rw [List.subperm_ext_iff] at hs ⊢
  intro rule hr
  have hp : rejects names rule = true := (List.mem_filter.mp hr).2
  rw [rejectsNaming, List.count_filter hp]
  apply hk
  by_cases hmem : rule ∈ rules
  · have hle := hs rule (List.mem_filter.mpr ⟨hmem, hp⟩)
    rwa [rejectsNaming, List.count_filter hp] at hle
  · rw [List.count_eq_zero_of_not_mem hmem]
    exact Nat.zero_le _

theorem Bounded.keeps_ownedRules (h : Bounded rules m rules' m') :
    Keeps ownedRules rules m rules' m' := by
  intro rule hbefore
  by_cases hplain : ∃ ns, rule = .reject ns
  · obtain ⟨ns, rfl⟩ := hplain
    rw [count_ownedRules] at hbefore ⊢
    exact h.plain ns hbefore
  · have hnot : ∀ ns, rule ≠ .reject ns := fun ns he => hplain ⟨ns, he⟩
    rw [count_ownedRules_of_not_plain hnot] at hbefore ⊢
    exact (h.other rule hnot).trans hbefore

theorem not_plain_of_mem_sourceRules (hr : rule ∈ sourceRules m) (names : List String) :
    rule ≠ .reject names := by
  unfold sourceRules at hr
  split at hr
  · cases hr
  · cases hr
  obtain ⟨cidrs, rfl⟩ := mem_managedSourceRules hr
  intro he
  cases congrArg Rule.sourceIpCidr he

theorem count_sourceRules_reject (m : Metadata) (names : List String) :
    (sourceRules m).count (.reject names) = 0 := by
  rw [List.count_eq_zero]
  intro hmem
  exact not_plain_of_mem_sourceRules hmem names rfl

theorem keeps_recordedRules
    (hplain : ∀ names, rules.count (.reject names) ≤ owners m names →
      rules'.count (.reject names) ≤ owners m' names)
    (hsource : ∀ rule, (∀ names, rule ≠ .reject names) →
      rules.count rule ≤ (sourceRules m).count rule →
    rules'.count rule ≤ (sourceRules m').count rule) : Keeps recordedRules rules m rules' m' := by
  intro rule hbefore
  rw [recordedRules, List.count_append] at hbefore ⊢
  by_cases hp : ∃ ns, rule = .reject ns
  · obtain ⟨ns, rfl⟩ := hp
    rw [count_ownedRules, count_sourceRules_reject, Nat.add_zero] at hbefore ⊢
    exact hplain ns hbefore
  · have hnot : ∀ ns, rule ≠ .reject ns := fun ns he => hp ⟨ns, he⟩
    rw [count_ownedRules_of_not_plain hnot, Nat.zero_add] at hbefore ⊢
    exact hsource rule hnot hbefore

theorem Bounded.keeps_recordedRules (h : Bounded rules m rules' m')
    (hsource : sourceRules m' = sourceRules m) :
    Keeps recordedRules rules m rules' m' := by
  apply DenyAccounting.keeps_recordedRules h.plain
  intro rule hnot hbefore
  rw [hsource]
  exact (h.other rule hnot).trans hbefore

end NodeManager.DenyAccounting
