import NodeManager.Credentials
import NodeManager.DenyAccounting

namespace NodeManager.DenyRenaming

open Text Dictionary Singbox Identities Occurrences DenyRules DenyLedger DenyAccounting
  Bindings Credentials

variable {username : String} {replaced retained : List String} {names : List String}

theorem replaceNames_eq_nil (names : List String) :
    replaceNames username replaced retained names = [] ↔ names = [] := by
  constructor
  · intro h
    by_contra hne
    obtain ⟨n, hn⟩ := List.exists_mem_of_ne_nil names hne
    have hmem : (if n ∈ replaced then username else n) ∈
        replaceNames username replaced retained names := by
      simp only [replaceNames, mem_sortedSet, List.mem_append]
      exact Or.inl (List.mem_map.mpr ⟨n, hn, rfl⟩)
    rw [h] at hmem
    exact List.not_mem_nil hmem
  · rintro rfl
    rfl

theorem normalized_replaceNames (hu : username ≠ "") (hr : "" ∉ replaced) (names : List String) :
    normalized (replaceNames username replaced retained names) =
      replaceNames username replaced retained (normalized names) := by
  have hfilter : (replaceNames username replaced retained names).filter (· ≠ "") =
      replaceNames username replaced retained (normalized names) := by
    refine List.Perm.eq_of_pairwise' ((sorted_pairwise _).sublist List.filter_sublist)
      (sorted_pairwise _) ?_
    apply (List.perm_ext_iff_of_nodup ((sortedSet_nodup _).filter _) (sortedSet_nodup _)).mpr
    intro n
    have hn := @mem_replaceNames username replaced retained names n
    have hn' := @mem_replaceNames username replaced retained (normalized names) n
    rw [List.mem_filter]
    change (n ∈ replaceNames username replaced retained names ∧ _) ↔
      n ∈ replaceNames username replaced retained (normalized names)
    rw [hn, hn']
    simp only [normalized, mem_sorted, List.mem_filter, decide_eq_true_eq]
    constructor
    · rintro ⟨⟨rfl, old, hold, hor⟩ | ⟨hm, hnr⟩ | ⟨hm, hret⟩, hne⟩
      · exact Or.inl ⟨rfl, old, ⟨hold, fun he => hr (he ▸ hor)⟩, hor⟩
      · exact Or.inr (Or.inl ⟨⟨hm, hne⟩, hnr⟩)
      · exact Or.inr (Or.inr ⟨⟨hm, hne⟩, hret⟩)
    · rintro (⟨rfl, old, ⟨hold, _⟩, hor⟩ | ⟨⟨hm, hne⟩, hnr⟩ | ⟨⟨hm, hne⟩, hret⟩)
      · exact ⟨Or.inl ⟨rfl, old, hold, hor⟩, hu⟩
      · exact ⟨Or.inr (Or.inl ⟨hm, hnr⟩), hne⟩
      · exact ⟨Or.inr (Or.inr ⟨hm, hret⟩), hne⟩
  rw [normalized, hfilter, replaceNames, sorted_sortedSet]

section

variable {f : List String → List String} (hnil : ∀ names, f names = [] ↔ names = [])
include hnil

theorem map_nonEmpty (list : Option (List String)) :
    nonEmpty (list.map f) = (nonEmpty list).map f := by
  cases list with
  | none => rfl
  | some names =>
    by_cases h : names = []
    · rw [h, Option.map_some, (hnil []).mpr rfl]
      rfl
    · rw [nonEmpty_some h, Option.map_some, nonEmpty_some (fun he => h ((hnil names).mp he))]

theorem ownedRules_renameMetadata
    (hnormalized : ∀ names, normalized (f names) = f (normalized names)) {m : Metadata}
    (ha : ∀ names, accessList m = some names → f names = names) :
    ownedRules (renameMetadata f username m) = (ownedRules m).map (renameRule f) := by
  have haccess : accessList (renameMetadata f username m) = (accessList m).map f := by
    change accessList m = _
    cases hl : accessList m with
    | none => rfl
    | some names => rw [Option.map_some, ha names hl]
  have hexpiration : expirationList (renameMetadata f username m) = (expirationList m).map f := by
    have htarget : expirationTarget (renameMetadata f username m) = (expirationTarget m).map f := by
      simp only [expirationTarget, renameMetadata, map_nonEmpty hnil, Option.map_map,
        Function.comp_def, hnormalized]
    rw [expirationList, htarget, expirationList]
    cases hf : m.expirationBlocked <;> simp [renameMetadata, hf]
  have htraffic : trafficList (renameMetadata f username m) = (trafficList m).map f := by
    rw [trafficList, trafficList]
    cases hf : m.enforcementTrafficBlocked <;> simp [renameMetadata, hf, map_nonEmpty hnil]
  have hreject : ∀ list : Option (List String),
      (list.map f).toList.map Rule.reject = (list.toList.map Rule.reject).map (renameRule f) := by
    intro list
    cases list <;> rfl
  simp only [ownedRules, haccess, hexpiration, htraffic, List.map_append, hreject]

theorem sourceRules_renameMetadata (m : Metadata) :
    sourceRules (renameMetadata f username m) = (sourceRules m).map (renameRule f) := by
  unfold sourceRules
  simp only [renameMetadata]
  cases hl : m.enforcementAuthUsers with
  | none => rfl
  | some authUsers =>
    cases authUsers with
    | nil => rw [Option.map_some, (hnil []).mpr rfl, List.map_nil]
    | cons n ns =>
      have hne : f (n :: ns) ≠ [] := fun he => List.cons_ne_nil n ns ((hnil _).mp he)
      obtain ⟨a, as, ha⟩ := List.exists_cons_of_ne_nil hne
      simp only [Option.map_some, ha]
      cases hc : m.enforcementBlockedSourceCidrs with
      | none => rfl
      | some cidrs =>
        cases cidrs with
        | nil => rfl
        | cons c cs =>
          simp only [managedSourceRules, List.map_singleton, renameRule, Rule.rejectSources, ha]

end

structure Ledger (owned : Metadata → List Rule) : Prop where
  keeps : ∀ {rules rules' : List Rule} {m m' : Metadata}, Bounded rules m rules' m' →
    sourceRules m' = sourceRules m → Keeps owned rules m rules' m'
  exit : ∀ (h : Host) (proxy : Proxy) (m : Metadata), owned (proxyMetadata h proxy m) = owned m
  clear : ∀ m : Metadata, owned (clearProxyMetadata m) = owned m
  rename : ∀ {username : String} {replaced retained : List String} {m : Metadata}, username ≠ "" →
    "" ∉ replaced →
    (∀ names, accessList m = some names → replaceNames username replaced retained names = names) →
    owned (renameMetadata (replaceNames username replaced retained) username m) =
      (owned m).map (renameRule (replaceNames username replaced retained))

theorem ledger_ownedRules : Ledger ownedRules where
  keeps hb _ := hb.keeps_ownedRules
  exit _ _ _ := rfl
  clear _ := rfl
  rename hu hr ha := ownedRules_renameMetadata replaceNames_eq_nil
    (normalized_replaceNames hu hr) ha

theorem ledger_recordedRules : Ledger recordedRules where
  keeps hb hsource := hb.keeps_recordedRules hsource
  exit _ _ _ := rfl
  clear _ := rfl
  rename hu hr ha := by
    rw [recordedRules, ownedRules_renameMetadata replaceNames_eq_nil
      (normalized_replaceNames hu hr) ha, sourceRules_renameMetadata replaceNames_eq_nil,
      recordedRules, List.map_append]

theorem action_renameRule (rename : List String → List String) (rule : Rule) :
    (renameRule rename rule).action = rule.action := by
  unfold renameRule
  split <;> rfl

/-- A renamed rule names the user only if it did before, provided that a rule with the new public
name already did. -/
theorem touches_of_touches_renameRule {u : String} {rule : Rule}
    (hnames : authName u ∈ names ∧ u ∈ names) (hreplaced : ∀ n ∈ replaced, n ∈ names)
    (hpublic : publicName u username ∈ rule.names → rule.touches names = true)
    (h : (renameRule (replaceNames username replaced retained) rule).touches
      [authName u, u, publicName u username] =
    true) : rule.touches names = true := by
  rw [Rule.touches_iff] at h
  obtain ⟨n, hn, hmem⟩ := h
  have hkept : n ∈ rule.names → rule.touches names = true := by
    intro hold
    simp only [List.mem_cons, List.not_mem_nil, or_false] at hmem
    rcases hmem with rfl | rfl | rfl
    · exact Rule.touches_iff.mpr ⟨_, hold, hnames.1⟩
    · exact Rule.touches_iff.mpr ⟨_, hold, hnames.2⟩
    · exact hpublic hold
  unfold renameRule at hn
  split at hn
  next ns hauth =>
    have hns : rule.names = ns := by rw [Rule.names, hauth]
    rcases mem_replaceNames.mp hn with ⟨_, old, hold, hor⟩ | ⟨hold, _⟩ | ⟨hold, _⟩
    · exact Rule.touches_iff.mpr ⟨old, hns ▸ hold, hreplaced old hor⟩
    · exact hkept (hns ▸ hold)
    · exact hkept (hns ▸ hold)
  next => exact hkept hn

theorem empty_not_mem_replacedNames {h : Host} (hn : "" ∉ names) (inbounds : List Inbound) :
    "" ∉ replacedNames h names inbounds := fun he => hn (replacedNames_subset he)

theorem userAuthNames_renameUser {h : Host} {u password : String} {s : Node} :
    userAuthNames (renameUser h u username password s).users u =
    [authName u, u, publicName u username] := by
  unfold renameUser
  rw [userAuthNames, publicSocksUsername, registryUser_update]
  rfl

/-- A rotation that leaves the names of the access block alone keeps every reject rule accounted
for. -/
theorem AccountedBy.renameUser {owned : Metadata → List Rule} (ho : Ledger owned) {h : Host}
    {u password : String} {s : Node} (hs : AccountedBy owned u s) (hu : u ≠ "")
    (hname : username ≠ "") (haccess : ∀ names, accessList (registryUser s.users u) = some names →
      replaceNames username (replacedNames h (userAuthNames s.users u) s.inbounds)
        (retainedNames (replacedNames h (userAuthNames s.users u) s.inbounds) s.inbounds)
        names = names)
    (hpublic : ∀ rule ∈ s.rules, rule.action = .reject → publicName u username ∈ rule.names →
      rule.touches (userAuthNames s.users u) = true) :
    AccountedBy owned u (renameUser h u username password s) := by
  have hempty : "" ∉ replacedNames h (userAuthNames s.users u) s.inbounds :=
    empty_not_mem_replacedNames (empty_not_mem_userAuthNames hu) s.inbounds
  have hrow := registryUser_update s.users u (renameMetadata (replaceNames username
    (replacedNames h (userAuthNames s.users u) s.inbounds)
    (retainedNames (replacedNames h (userAuthNames s.users u) s.inbounds) s.inbounds)) username)
  have hnames := @userAuthNames_renameUser username h u password s
  constructor
  · unfold Credentials.renameUser
    rw [Dict.keys_modify]
    exact Dict.mem_keys_setDefault.mpr (Or.inl rfl)
  rw [hnames]
  unfold Credentials.renameUser
  rw [hrow, ho.rename hname hempty haccess]
  apply subperm_filter_map _ hs.rejects
  intro rule hr hq
  rw [rejects, Bool.and_eq_true, decide_eq_true_eq] at hq ⊢
  rw [action_renameRule] at hq
  refine ⟨hq.1, touches_of_touches_renameRule ?_ (fun n hn => replacedNames_subset hn)
    (hpublic rule hr hq.1) hq.2⟩
  exact ⟨authName_mem s.users u, mem_userAuthNames.mpr (Or.inr (Or.inl rfl))⟩

end NodeManager.DenyRenaming
